import WebModules.Proofs.FileTree.Loss
import WebModules.Proofs.FileTree.Repeat
import WebModules.Proofs.Path.Above

/-!
Trees without some of their places.  What a path leads to is the same as before, unless it leads through
one of these places, and a directory is empty if nothing was in it but such places.
-/

namespace WebModules.FileTree

open WebModules.Path

variable {t t' : FileTree} {gone : List (List String)} {path root last : String} {names directory : List String}
  {steps : List Component}

/-- The tree without what stands in some places. -/
def without (t : FileTree) (gone : List (List String)) : FileTree := ⟨t.nodes.filter fun n => n.1 ∉ gone⟩

theorem without_nil (t : FileTree) : t.without [] = t := by simp [without]

theorem erase_without (t : FileTree) (gone : List (List String)) (names : List String) :
    (t.without gone).erase names = t.without (names :: gone) := by
  simp [without, erase, List.filter_filter]

theorem without_perm {gone' : List (List String)} (h : gone.Perm gone') : t.without gone = t.without gone' := by
  simp only [without, h.mem_iff]

theorem node?_without (h : [] ∉ gone) (names : List String) :
    (t.without gone).node? names = if names ∈ gone then none else t.node? names := by
  induction gone with
  | nil => simp [without_nil]
  | cons place gone ih =>
      obtain ⟨hplace, hgone⟩ := not_or.1 (List.mem_cons.not.1 h)
      rw [← erase_without, node?_erase (Ne.symm hplace), ih hgone]
      by_cases hn : names = place <;> simp [hn]

theorem children_without (t : FileTree) (gone : List (List String)) (names : List String) :
    (t.without gone).children names = (t.children names).filter fun name => names ++ [name] ∉ gone := by
  have hkey (n : List String × FileNode) {name : String}
      (h : (if n.1.dropLast = names then n.1.getLast? else none) = some name) : n.1 = names ++ [name] := by
    split at h
    · rename_i hdirectory
      obtain ⟨before, hbefore⟩ := List.getLast?_eq_some_iff.1 h
      rw [hbefore, List.dropLast_concat] at hdirectory
      rw [hbefore, hdirectory]
    · cases h
  rw [children, children, without, List.filterMap_filter, List.filter_filterMap]
  refine List.filterMap_congr fun n _ => ?_
  cases hname : (if n.1.dropLast = names then n.1.getLast? else none) with
  | none => split <;> rfl
  | some name =>
      rw [hkey n hname]
      simp only [Option.filter_some]

theorem children_without_eq_nil :
    (t.without gone).children names = [] ↔ ∀ name ∈ t.children names, names ++ [name] ∈ gone := by
  rw [children_without, List.filter_eq_nil_iff]
  simp

/-! Walks -/

/-- A walk depends on nothing but the places that it passes. -/
theorem walk_congr (h : ∀ before, before <+: steps →
    t'.node? (before.foldl follow names) = t.node? (before.foldl follow names)) :
    t'.walk names steps = t.walk names steps := by
  have hnext {names : List String} {step : Component} {steps : List Component}
      (h : ∀ before, before <+: step :: steps →
        t'.node? (before.foldl follow names) = t.node? (before.foldl follow names)) (before : List Component)
      (hb : before <+: steps) :
      t'.node? (before.foldl follow (follow names step)) = t.node? (before.foldl follow (follow names step)) :=
    h (step :: before) ((List.prefix_cons_inj step).2 hb)
  have hdown {names : List String} {name : String} {steps : List Component}
      (h : ∀ before, before <+: .normal name :: steps →
        t'.node? (before.foldl follow names) = t.node? (before.foldl follow names)) :
      t'.node? (names ++ [name]) = t.node? (names ++ [name]) :=
    h [.normal name] ((List.prefix_cons_inj _).2 List.nil_prefix)
  fun_induction FileTree.walk t names steps with
  | case1 names => rfl
  | case2 names steps ih | case3 names steps ih | case4 names steps ih => exact ih (hnext h)
  | case5 names name steps hnode | case6 names name steps text hnode => rw [FileTree.walk, hdown h, hnode]
  | case7 names name steps hnode ih =>
      rw [FileTree.walk, hdown h, hnode]
      exact ih (hnext h)

theorem walk_passes (hw : t.walk names steps = .ok directory) (hs : t.Stands names) {before : List Component}
    (hb : before <+: steps) : t.node? (before.foldl follow names) = some .directory := by
  obtain ⟨after, rfl⟩ := hb
  rw [walk_append] at hw
  obtain ⟨found, hfound, -⟩ := bind_eq_ok hw
  obtain ⟨rfl, hstands⟩ := walk_eq_ok hfound hs
  exact hstands.node

theorem Passes.node {passed : List String} (hp : Passes path passed) (hd : t.isDirectory path = true) :
    t.node? passed = some .directory := by
  obtain ⟨before, hbefore, rfl⟩ := hp
  obtain ⟨found, hwalk⟩ := isDirectory_iff.1 hd
  exact walk_passes hwalk (stands_nil t) hbefore

/-- A directory is found as long as none of the places on the way to it is gone. -/
theorem isDirectory_without (h : [] ∉ gone) : (t.without gone).isDirectory path = true ↔
    t.isDirectory path = true ∧ ∀ place ∈ gone, ¬ Passes path place := by
  have hkept (hpass : ∀ place ∈ gone, ¬ Passes path place) :
      (t.without gone).walk [] (Path.steps path) = t.walk [] (Path.steps path) := by
    refine walk_congr fun before hb => ?_
    rw [node?_without h, if_neg fun hmem => hpass _ hmem ⟨before, hb, rfl⟩]
  constructor
  · intro hd
    have hpass : ∀ place ∈ gone, ¬ Passes path place := by
      intro place hmem hp
      have hnode := hp.node hd
      rw [node?_without h, if_pos hmem] at hnode
      cases hnode
    rw [isDirectory_iff, hkept hpass, ← isDirectory_iff] at hd
    exact ⟨hd, hpass⟩
  · rintro ⟨hd, hpass⟩
    rw [isDirectory_iff, hkept hpass, ← isDirectory_iff]
    exact hd

/-- What a path below a root leads through is on the way to the root or to the path from there. -/
theorem Passes.of_below (hb : Below root names path) {passed : List String} (h : Passes path passed) :
    Passes root passed ∨ passed <+: place path := by
  obtain ⟨before, hbefore, rfl⟩ := h
  rw [hb.start_steps.2] at hbefore
  rcases List.prefix_or_prefix_of_prefix hbefore (List.prefix_append (Path.steps root) _) with hroot | ⟨more, hmore⟩
  · exact .inl ⟨before, hroot, rfl⟩
  · subst hmore
    obtain ⟨front, hfront, rfl⟩ := List.prefix_map_iff.1 ((List.prefix_append_right_inj _).1 hbefore)
    rw [hb.place_eq, List.foldl_append, Below.foldl_follow_names]
    exact .inr ((List.prefix_append_right_inj _).2 hfront)

theorem Passes.to_below (hb : Below root names path) {passed : List String} (h : Passes root passed) :
    Passes path passed := by
  obtain ⟨before, hbefore, rfl⟩ := h
  exact ⟨before, by rw [hb.start_steps.2]; exact hbefore.trans (List.prefix_append _ _), rfl⟩

/-! Directories that are removed -/

theorem Plain.removeDirectory (h : Plain path steps last) : t.removeDirectory path = .ok t' ↔
    t.isDirectory path = true ∧ t.children (place path) = [] ∧ t' = t.erase (place path) := by
  rw [FileTree.removeDirectory, isDirectory]
  cases hfound : t.findDirectory path with
  | error e => simp [bind, Except.bind, Except.toBool]
  | ok found =>
      obtain ⟨rfl, -⟩ := find_eq_ok (findDirectory_eq_ok hfound)
      have hwalk := find_eq_directory_iff.1 (findDirectory_eq_ok hfound)
      rw [h.steps_eq, walk_append] at hwalk
      obtain ⟨above, habove, -⟩ := bind_eq_ok hwalk
      rw [h.locate, habove]
      by_cases hempty : t.children (place path) = []
      · simp [bind, Except.bind, Except.map, pure, Except.pure, Except.toBool, hempty, eq_comm]
      · simp [bind, Except.bind, Except.map, Except.toBool, hempty]

theorem removeFile_iff : t.removeFile path = .ok t' ↔
    (∃ text, t.find path = .ok (place path, .file text)) ∧ t' = t.erase (place path) := by
  rw [FileTree.removeFile]
  cases hfound : t.find path with
  | error e => simp [bind, Except.bind]
  | ok found =>
      obtain ⟨names, node⟩ := found
      obtain ⟨rfl, -⟩ := find_eq_ok hfound
      cases node <;> simp [bind, Except.bind, pure, Except.pure, eq_comm]

/-- No directory is reached through a file in one below it. -/
theorem not_passes_file (hb : Below root (names ++ [last]) path) {text : String}
    (hf : t.find path = .ok (place path, .file text)) : ¬ Passes root (place path) := by
  rintro ⟨before, hbefore, hplace⟩
  obtain ⟨directory, last', hnames, -, hnode⟩ := find_eq_file hf
  obtain ⟨steps, hplain, hwalk⟩ := hnames.plain
  have hsteps : steps = Path.steps root ++ names.map .normal := by
    have hwhole := hb.start_steps.2
    rw [hplain.steps_eq, List.map_append, ← List.append_assoc] at hwhole
    exact (List.append_inj' hwhole rfl).1
  rw [hsteps] at hwalk
  have hdirectory := walk_passes hwalk (stands_nil t) (hbefore.trans (List.prefix_append _ _))
  rw [hplace, hnode] at hdirectory
  cases hdirectory

theorem plain_of_tidy (ht : Tidy path) (hs : Path.steps path = steps ++ [.normal last]) : Plain path steps last := by
  obtain ⟨front, part, hsplit, hne, hdot⟩ := ht.exists_last (by rw [hs]; simp)
  have hlast : lastPart? path = some (String.ofList part) := by
    rw [lastPart?, parts_eq, hsplit, List.filter_append, List.filter_cons_of_pos (by simpa using hne), List.filter_nil,
      List.map_append, List.map_singleton, List.getLast?_concat]
  have hsteps : Path.steps path = innerComponents front ++ innerComponents [part] := by
    rw [Path.steps, charSteps, hsplit]
    exact List.filterMap_append
  have hdots : part ≠ ['.', '.'] := by
    rintro rfl
    have hparent : innerComponents [['.', '.']] = [.parent] := rfl
    rw [hs, hparent] at hsteps
    cases (List.append_inj' hsteps rfl).2
  have hpart : last = String.ofList part := by
    rw [hs, innerComponents_singleton hne hdot hdots] at hsteps
    cases (List.append_inj' hsteps rfl).2
    rfl
  subst hpart
  have hnamed : String.ofList part ≠ "." ∧ String.ofList part ≠ ".." :=
    ⟨fun heq => hdot (String.ofList_inj.1 heq), fun heq => hdots (String.ofList_inj.1 heq)⟩
  obtain ⟨steps', hplain⟩ := plain_of_lastPart hlast hnamed
  rw [hplain.steps_eq] at hs
  obtain ⟨rfl, -⟩ := List.append_inj' hs rfl
  exact hplain

end WebModules.FileTree
