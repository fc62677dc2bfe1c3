import WebModules.Proofs.FileTree.Walk

/-!
What is lost from a tree when files and directories are removed: what stood in the places of these
paths, and nothing else.
-/

namespace WebModules.FileTree

open WebModules.Path

variable {t t' t'' : FileTree} {path : String} {names : List String} {files files' lost lost' : List (List String)}

theorem lookup_erased (names other : List String) (nodes : List (List String × FileNode)) :
    (nodes.filter fun n => n.1 ≠ names).lookup other = if other = names then none else nodes.lookup other := by
  induction nodes with
  | nil => simp
  | cons n nodes ih =>
      obtain ⟨key, node⟩ := n
      by_cases hk : key = names
      · rw [List.filter_cons_of_neg (by simpa using hk), ih, hk]
        by_cases ho : other = names
        · rw [if_pos ho, if_pos ho]
        · rw [if_neg ho, if_neg ho, List.lookup_cons, beq_eq_false_iff_ne.2 ho]
      · rw [List.filter_cons_of_pos (by simpa using hk), List.lookup_cons, List.lookup_cons, ih]
        by_cases ho : other = names
        · have hne : (other == key) = false := beq_eq_false_iff_ne.2 fun heq => hk (heq.symm.trans ho)
          simp only [hne, if_pos ho]
        · rw [if_neg ho, if_neg ho]

theorem node?_erase (hn : names ≠ []) (other : List String) :
    (t.erase names).node? other = if other = names then none else t.node? other := by
  rw [node?, node?, erase, lookup_erased]
  by_cases ho : other = []
  · simp [ho, hn.symm]
  · simp [ho]

/-- All that has changed from a tree to another one is that some places are empty, which were not
before.  Of these the given ones were those of files, the others those of directories that nothing is
left in. -/
structure Loses (t t' : FileTree) (files lost : List (List String)) : Prop where
  gone : ∀ names ∈ lost, t.node? names ≠ none ∧ t'.node? names = none
  stays : ∀ names, names ∉ lost → t'.node? names = t.node? names
  kind : ∀ names ∈ lost, (names ∈ files ∧ ∃ text, t.node? names = some (.file text)) ∨
    t.node? names = some .directory ∧ ∀ name, t'.node? (names ++ [name]) = none

namespace Loses

theorem refl (t : FileTree) : Loses t t [] [] :=
  ⟨by simp, by simp, by simp⟩

theorem mono (h : Loses t t' files lost) (hm : ∀ names ∈ files, names ∈ files') : Loses t t' files' lost :=
  ⟨h.gone, h.stays, fun names hmem => (h.kind names hmem).imp_left fun ⟨hfile, htext⟩ => ⟨hm names hfile, htext⟩⟩

theorem node (h : Loses t t' files lost) (names : List String) :
    t'.node? names = t.node? names ∨ t'.node? names = none := by
  by_cases hmem : names ∈ lost
  · exact .inr (h.gone names hmem).2
  · exact .inl (h.stays names hmem)

theorem node_of_ne_none (h : Loses t t' files lost) (hn : t'.node? names ≠ none) :
    t'.node? names = t.node? names :=
  (h.node names).resolve_right hn

theorem trans (h : Loses t t' files lost) (h' : Loses t' t'' files' lost') :
    Loses t t'' (files ++ files') (lost ++ lost') := by
  constructor
  · intro names hmem
    rcases List.mem_append.1 hmem with hmem | hmem
    · obtain ⟨hthere, hgone⟩ := h.gone names hmem
      exact ⟨hthere, (h'.node names).elim (fun hsame => hsame.trans hgone) id⟩
    · obtain ⟨hthere, hgone⟩ := h'.gone names hmem
      exact ⟨h.node_of_ne_none hthere ▸ hthere, hgone⟩
  · intro names hmem
    obtain ⟨hfirst, hsecond⟩ := not_or.1 (List.mem_append.not.1 hmem)
    rw [h'.stays names hsecond, h.stays names hfirst]
  · intro names hmem
    rcases List.mem_append.1 hmem with hmem | hmem
    · rcases h.kind names hmem with ⟨hfile, htext⟩ | ⟨hdirectory, hempty⟩
      · exact .inl ⟨List.mem_append_left _ hfile, htext⟩
      · exact .inr ⟨hdirectory, fun name => (h'.node _).elim (fun hsame => hsame.trans (hempty name)) id⟩
    · rw [← h.node_of_ne_none (h'.gone names hmem).1]
      rcases h'.kind names hmem with ⟨hfile, htext⟩ | hdirectory
      · exact .inl ⟨List.mem_append_right _ hfile, htext⟩
      · exact .inr hdirectory

theorem mem_iff (h : Loses t t' files lost) : names ∈ lost ↔ t.node? names ≠ none ∧ t'.node? names = none := by
  refine ⟨h.gone names, fun ⟨hthere, hgone⟩ => ?_⟩
  by_contra hmem
  exact hthere ((h.stays names hmem).symm.trans hgone)

theorem walk (h : Loses t t' files lost) (names : List String) (steps : List Component) :
    t'.walk names steps = t.walk names steps ∨ t'.walk names steps = .error .notFound := by
  fun_induction FileTree.walk t names steps with
  | case1 names => exact .inl rfl
  | case2 names steps ih => exact ih
  | case3 names steps ih => exact ih
  | case4 names steps ih => exact ih
  | case5 names name steps hnode =>
      rcases h.node (names ++ [name]) with hsame | hnone
      · exact .inr (by rw [FileTree.walk, hsame, hnode])
      · exact .inr (by rw [FileTree.walk, hnone])
  | case6 names name steps text hnode =>
      rcases h.node (names ++ [name]) with hsame | hnone
      · exact .inl (by rw [FileTree.walk, hsame, hnode])
      · exact .inr (by rw [FileTree.walk, hnone])
  | case7 names name steps hnode ih =>
      rcases h.node (names ++ [name]) with hsame | hnone
      · rw [FileTree.walk, hsame, hnode]
        exact ih
      · exact .inr (by rw [FileTree.walk, hnone])

/-- What a path stands for is found as before, or it is not found any more. -/
theorem find (h : Loses t t' files lost) (path : String) :
    t'.find path = t.find path ∨ t'.find path = .error .notFound := by
  rw [FileTree.find, FileTree.find]
  by_cases hp : ∃ steps last, Plain path steps last
  · obtain ⟨steps, last, hplain⟩ := hp
    rw [hplain.locate, hplain.locate]
    rcases h.walk [] steps with hsame | hnone
    · rw [hsame]
      cases t.walk [] steps with
      | error e => exact .inl rfl
      | ok directory =>
          rcases h.node (directory ++ [last]) with hsame | hnone
          · left
            simp only [bind, Except.bind, Except.map, hsame]
          · right
            simp only [bind, Except.bind, Except.map, hnone]
    · rw [hnone]
      exact .inr rfl
  · rw [locate_of_not_plain (by simpa using hp), locate_of_not_plain (by simpa using hp)]
    rcases h.walk [] (Path.steps path) with hsame | hnone
    · rw [hsame]
      cases t.walk [] (Path.steps path) with
      | error e => exact .inl rfl
      | ok directory => exact .inl rfl
    · rw [hnone]
      exact .inr rfl

/-- The directories that lead to something that is left are left, too. -/
theorem stands (h : Loses t t' files lost) {directory : List String} {name : String}
    (hs : t.Stands directory) (hn : t'.node? (directory ++ [name]) ≠ none) : t'.Stands directory := by
  induction directory using List.reverseRecOn generalizing name with
  | nil => exact stands_nil t'
  | append_singleton above last ih =>
      have hnode : t.node? (above ++ [last]) = some .directory := hs.node
      have hleft : above ++ [last] ∉ lost := by
        intro hmem
        rcases h.kind _ hmem with ⟨-, text, htext⟩ | ⟨-, hempty⟩
        · rw [hnode] at htext
          cases htext
        · exact hn (hempty name)
      have hnode' : t'.node? (above ++ [last]) = some .directory := (h.stays _ hleft).trans hnode
      have habove : t'.Stands above :=
        ih (fun other ho => hs other (ho.trans (List.prefix_append above [last]))) (by rw [hnode']; simp)
      intro other ho
      rcases List.prefix_concat_iff.1 ho with rfl | ho
      · exact hnode'
      · exact habove other ho

theorem find_notFound (h : Loses t t' files lost) (hf : t.find path = .error .notFound) :
    t'.find path = .error .notFound := by
  rcases h.find path with hsame | hnone
  · rw [hsame, hf]
  · exact hnone

theorem find_gone (h : Loses t t' files lost) {node : FileNode} (hf : t.find path = .ok (names, node))
    (hn : t'.node? names = none) : t'.find path = .error .notFound := by
  rcases h.find path with hsame | hnone
  · obtain ⟨-, hnode⟩ := find_eq_ok (hsame.trans hf)
    rw [hn] at hnode
    cases hnode
  · exact hnone

theorem hasFile (h : Loses t t' files lost) {text : String} (hf : t.HasFile path text)
    (hn : place path ∉ files) : t'.HasFile path text := by
  have hnode : t'.node? (place path) = some (.file text) := by
    rw [h.stays, hf.2]
    intro hmem
    rcases h.kind _ hmem with ⟨hfile, -⟩ | ⟨hdirectory, -⟩
    · exact hn hfile
    · rw [hf.2] at hdirectory
      cases hdirectory
  refine ⟨?_, hnode⟩
  have hstands := hf.1
  obtain ⟨directory, last, hplace⟩ := hf.exists_concat
  rw [hplace, List.dropLast_concat] at hstands ⊢
  exact h.stands hstands (by rw [← hplace, hnode]; simp)

end Loses

theorem loses_erase (hn : names ≠ []) (ht : t.node? names ≠ none)
    (hk : (names ∈ files ∧ ∃ text, t.node? names = some (.file text)) ∨
      t.node? names = some .directory ∧ ∀ name, t.node? (names ++ [name]) = none) :
    Loses t (t.erase names) files [names] := by
  constructor
  · intro other ho
    rw [List.mem_singleton.1 ho, node?_erase hn, if_pos rfl]
    exact ⟨ht, rfl⟩
  · intro other ho
    rw [node?_erase hn, if_neg (List.mem_singleton.not.1 ho)]
  · intro other ho
    rw [List.mem_singleton.1 ho]
    refine hk.imp_right fun ⟨hdirectory, hempty⟩ => ⟨hdirectory, fun name => ?_⟩
    rw [node?_erase hn, if_neg (by simp), hempty name]

/-- A file that is removed is lost, and is not found any more. -/
theorem removeFile_eq_ok (h : t.removeFile path = .ok t') :
    Loses t t' [place path] [place path] ∧ t'.find path = .error .notFound := by
  obtain ⟨⟨names, node⟩, hf, h⟩ := bind_eq_ok h
  cases node with
  | directory => cases h
  | file text =>
      cases h
      obtain ⟨hplace, hnode⟩ := find_eq_ok hf
      have hne : names ≠ [] := by
        rintro rfl
        cases hnode
      have hloses : Loses t (t.erase names) [names] [names] :=
        loses_erase hne (by rw [hnode]; simp) (.inl ⟨List.mem_cons_self, text, hnode⟩)
      rw [← hplace]
      exact ⟨hloses, hloses.find_gone hf (by rw [node?_erase hne, if_pos rfl])⟩

theorem removeFile_eq_notFound (h : t.removeFile path = .error .notFound) :
    t.find path = .error .notFound := by
  rw [removeFile] at h
  cases hf : t.find path with
  | error e => simpa [hf, bind, Except.bind] using h
  | ok found =>
      obtain ⟨names, node⟩ := found
      cases node <;> simp [hf, bind, Except.bind, pure, Except.pure] at h

theorem findDirectory_eq_ok {t : FileTree} (h : t.findDirectory path = .ok names) :
    t.find path = .ok (names, .directory) := by
  rw [findDirectory] at h
  obtain ⟨⟨found, node⟩, hf, h⟩ := bind_eq_ok h
  cases node with
  | file text => cases h
  | directory =>
      cases h
      exact hf

/-- Nothing is in a directory without children. -/
theorem node?_of_children (h : t.children names = []) (name : String) : t.node? (names ++ [name]) = none := by
  have hlookup : t.nodes.lookup (names ++ [name]) = none := by
    rw [List.lookup_eq_none_iff]
    intro n hmem
    rw [bne_iff_ne]
    intro heq
    have hchild : (if n.1.dropLast = names then n.1.getLast? else none) = none :=
      List.filterMap_eq_nil_iff.1 h n hmem
    rw [← heq, List.dropLast_concat, if_pos rfl, List.getLast?_concat] at hchild
    cases hchild
  simp [node?, hlookup]

theorem removeDirectory_eq_ok (h : t.removeDirectory path = .ok t') : Loses t t' [] [place path] := by
  rw [removeDirectory] at h
  obtain ⟨names, hnames, h⟩ := bind_eq_ok h
  obtain ⟨found, hfound, h⟩ := bind_eq_ok h
  have hwalk := find_eq_directory_iff.1 (findDirectory_eq_ok hnames)
  obtain ⟨hplace, hnode⟩ := find_eq_ok (findDirectory_eq_ok hnames)
  split at h
  · cases h
  · rename_i hnamed
    cases h
    rw [← hplace]
    have hne : names ≠ [] := by
      by_cases hp : ∃ steps last, Plain path steps last
      · obtain ⟨steps, last, hplain⟩ := hp
        rw [hplain.steps_eq, walk_append] at hwalk
        obtain ⟨above, habove, -⟩ := bind_eq_ok hwalk
        rw [hplace, ← hplain.place_eq habove]
        simp
      · rw [locate_of_not_plain (by simpa using hp), hwalk] at hfound
        cases hfound
        simp at hnamed
    have hempty : t.children names = [] := by
      simpa using (not_or.1 hnamed).2
    exact loses_erase hne (by rw [hnode]; simp) (.inr ⟨hnode, node?_of_children hempty⟩)

end WebModules.FileTree
