import Mathlib.Data.List.Nodup
import WebModules.Proofs.FileTree.Loss
import WebModules.Proofs.FileTree.Repeat

/-!
Trees that differ in nothing but the order in which their directories are listed, and trees in which each
directory lists a name once.
-/

namespace WebModules.FileTree

open WebModules.Path

variable {t t' : FileTree} {path name : String} {names found : List String}

/-- The same files and directories, which may be listed in another order. -/
structure Relisted (t t' : FileTree) : Prop where
  node : ∀ names, t'.node? names = t.node? names
  children : ∀ names, (t'.children names).Perm (t.children names)

theorem lookup_perm {nodes nodes' : List (List String × FileNode)} (hperm : nodes'.Perm nodes)
    (h : (nodes.map Prod.fst).Nodup) (names : List String) : nodes'.lookup names = nodes.lookup names := by
  induction hperm with
  | nil => rfl
  | cons n _ ih =>
      rw [List.lookup_cons, List.lookup_cons, ih (List.nodup_cons.1 h).2]
  | swap n n' nodes =>
      have hne : (n.1 == n'.1) = false := by
        rw [beq_eq_false_iff_ne]
        intro heq
        simp [heq] at h
      rw [List.lookup_cons, List.lookup_cons, List.lookup_cons, List.lookup_cons]
      by_cases hn : names = n.1
      · simp only [hn, hne, beq_self_eq_true]
      · rw [beq_eq_false_iff_ne.2 hn]
  | trans hperm hperm' ih ih' => rw [ih ((hperm'.map _).nodup_iff.2 h), ih' h]

/-- Where each place is taken once, the order of the nodes is only that of the lists. -/
theorem Relisted.of_perm (hperm : t'.nodes.Perm t.nodes) (h : (t.nodes.map Prod.fst).Nodup) : t.Relisted t' where
  node names := by rw [node?, node?, lookup_perm hperm h]
  children names := hperm.filterMap _

theorem Relisted.enter (h : t.Relisted t') (names parts : List String) :
    t'.enter names parts = t.enter names parts := by
  fun_induction FileTree.enter t names parts with
  | case1 names => rfl
  | case2 names parts ih => rw [FileTree.enter, if_pos rfl, ih]
  | case3 names parts hdot ih => rw [FileTree.enter, if_neg hdot, if_pos rfl, ih]
  | case4 names part parts hdot hdots hnode => rw [FileTree.enter, if_neg hdot, if_neg hdots, h.node, hnode]
  | case5 names part parts hdot hdots text hnode => rw [FileTree.enter, if_neg hdot, if_neg hdots, h.node, hnode]
  | case6 names part parts hdot hdots hnode ih => rw [FileTree.enter, if_neg hdot, if_neg hdots, h.node, hnode, ← ih]

theorem Relisted.findDirectory (h : t.Relisted t') (path : String) : t'.findDirectory path = t.findDirectory path := by
  have hlocate : t'.locate path = t.locate path := by simp only [locate, h.enter]
  simp only [FileTree.findDirectory, find, hlocate, h.node]

/-- The name that a place has in a directory. -/
def nameIn? (directory names : List String) : Option String :=
  if names.dropLast = directory then names.getLast? else none

theorem nameIn?_eq_some {directory names : List String} {name : String} :
    nameIn? directory names = some name ↔ names = directory ++ [name] := by
  rw [nameIn?]
  constructor
  · intro h
    split at h
    · rename_i hdirectory
      obtain ⟨before, rfl⟩ := List.getLast?_eq_some_iff.1 h
      rw [List.dropLast_concat] at hdirectory
      rw [hdirectory]
    · cases h
  · rintro rfl
    rw [List.dropLast_concat, if_pos rfl, List.getLast?_concat]

theorem children_eq (t : FileTree) (directory : List String) :
    t.children directory = (t.nodes.map Prod.fst).filterMap (nameIn? directory) := by
  rw [children, List.filterMap_map]
  rfl

theorem mem_children_iff {names : List String} {name : String} :
    name ∈ t.children names ↔ t.node? (names ++ [name]) ≠ none := by
  have hnode : t.node? (names ++ [name]) = t.nodes.lookup (names ++ [name]) := if_neg (by simp)
  rw [hnode, ne_eq, List.lookup_eq_none_iff, children_eq, List.mem_filterMap]
  constructor
  · rintro ⟨key, hkey, hname⟩ hnone
    obtain ⟨n, hn, rfl⟩ := List.mem_map.1 hkey
    exact absurd (nameIn?_eq_some.1 hname).symm (bne_iff_ne.1 (hnone n hn))
  · intro hsome
    simp only [not_forall, bne_iff_ne, not_not] at hsome
    obtain ⟨n, hn, hkey⟩ := hsome
    exact ⟨n.1, List.mem_map_of_mem hn, nameIn?_eq_some.2 hkey.symm⟩

theorem length_le_foldr {nodes : List (List String × FileNode)} {n : List String × FileNode} (h : n ∈ nodes) :
    n.1.length ≤ nodes.foldr (fun n levels => max n.1.length levels) 0 := by
  induction nodes with
  | nil => cases h
  | cons other nodes ih =>
      rw [List.foldr_cons]
      rcases List.mem_cons.1 h with rfl | h
      · exact Nat.le_max_left _ _
      · exact (ih h).trans (Nat.le_max_right _ _)

theorem length_le_height {names : List String} (h : t.node? names ≠ none) : names.length ≤ t.height := by
  by_cases hn : names = []
  · simp [hn]
  · have hnode : t.node? names = t.nodes.lookup names := if_neg (by simpa using hn)
    obtain ⟨node, hlookup⟩ := Option.ne_none_iff_exists'.1 (hnode ▸ h)
    exact length_le_foldr (mem_of_lookup hlookup)

/-! Directories in a directory -/

theorem findDirectory_eq_ok_iff : t.findDirectory path = .ok names ↔ t.walk [] (steps path) = .ok names := by
  refine ⟨fun h => find_eq_directory_iff.1 (findDirectory_eq_ok h), fun h => ?_⟩
  rw [findDirectory, find_eq_directory_iff.2 h]
  rfl

theorem isDirectory_iff_exists : t.isDirectory path = true ↔ ∃ names, t.findDirectory path = .ok names := by
  simp only [isDirectory_iff, findDirectory_eq_ok_iff]

theorem findDirectory_push (h : IsName name) : t.findDirectory (push path name) = .ok found ↔
    ∃ names, t.findDirectory path = .ok names ∧ t.node? (names ++ [name]) = some .directory ∧
      found = names ++ [name] := by
  simp only [findDirectory_eq_ok_iff]
  rw [steps_push (isAbsolute_of_notMem h.slash), h.steps, walk_append]
  cases t.walk [] (steps path) with
  | error e => simp [bind, Except.bind]
  | ok names =>
      simp only [bind, Except.bind, walk, Except.ok.injEq, exists_eq_left']
      cases t.node? (names ++ [name]) with
      | none => simp
      | some node => cases node <;> simp [eq_comm]

theorem isDirectory_push (h : IsName name) (hd : t.findDirectory path = .ok names) :
    t.isDirectory (push path name) = true ↔ t.node? (names ++ [name]) = some .directory := by
  simp only [isDirectory_iff_exists, findDirectory_push h, hd, Except.ok.injEq, exists_eq_left']
  exact ⟨fun ⟨_, hnode, _⟩ => hnode, fun hnode => ⟨_, hnode, rfl⟩⟩

theorem exists_findDirectory (h : ∀ name ∈ names, IsName name) (hd : t.findDirectory (pushAll path names) = .ok found) :
    ∃ above, t.findDirectory path = .ok above ∧ found = above ++ names := by
  induction names generalizing path with
  | nil => exact ⟨found, hd, (List.append_nil _).symm⟩
  | cons name names ih =>
      obtain ⟨hname, hnames⟩ := List.forall_mem_cons.1 h
      obtain ⟨middle, hmiddle, rfl⟩ := ih hnames hd
      obtain ⟨above, habove, -, rfl⟩ := (findDirectory_push hname).1 hmiddle
      exact ⟨above, habove, List.append_assoc above [name] names⟩

/-! Trees as they are on a disk -/

theorem children_put (t : FileTree) (directory names : List String) (node : FileNode) :
    (t.put names node).children directory =
      if names ∈ t.nodes.map Prod.fst then t.children directory
      else t.children directory ++ (nameIn? directory names).toList := by
  have hany : (t.nodes.any fun n => n.1 == names) = true ↔ names ∈ t.nodes.map Prod.fst := by
    simp only [List.any_eq_true, beq_iff_eq, List.mem_map]
  rw [children_eq, children_eq, put]
  by_cases h : names ∈ t.nodes.map Prod.fst
  · rw [if_pos (hany.2 h), if_pos h, List.map_map]
    congr 1
    refine List.map_congr_left fun n _ => ?_
    rw [Function.comp_apply]
    split
    · rename_i heq
      exact heq.symm
    · rfl
  · rw [if_neg (mt hany.1 h), if_neg h, List.map_append, List.filterMap_append, List.map_singleton]
    cases hname : nameIn? directory names <;> simp [hname]

/-- A tree as it is on a disk: a directory lists each name once, and only names that paths can have. -/
structure Proper (t : FileTree) : Prop where
  once : ∀ names, (t.children names).Nodup
  named : ∀ names, ∀ name ∈ t.children names, Path.IsName name

namespace Proper

theorem relisted (h : t.Proper) (hr : t.Relisted t') : t'.Proper where
  once names := (hr.children names).nodup_iff.2 (h.once names)
  named names name hname := h.named names name ((hr.children names).mem_iff.1 hname)

theorem of_nodes (h : (t.nodes.map Prod.fst).Nodup) (hm : ∀ n ∈ t.nodes, ∀ name ∈ n.1, IsName name) :
    t.Proper where
  once directory := by
    rw [children_eq]
    refine h.filterMap fun names names' name hname hname' => ?_
    rw [nameIn?_eq_some.1 hname, nameIn?_eq_some.1 hname']
  named directory name hname := by
    rw [children_eq, List.mem_filterMap] at hname
    obtain ⟨names, hnames, hlast⟩ := hname
    obtain ⟨n, hn, rfl⟩ := List.mem_map.1 hnames
    exact hm n hn name (by rw [nameIn?_eq_some.1 hlast]; simp)

theorem empty : FileTree.empty.Proper := .of_nodes .nil nofun

theorem put (h : t.Proper) {directory : List String} {last : String} (hl : Path.IsName last) (node : FileNode) :
    (t.put (directory ++ [last]) node).Proper := by
  constructor
  · intro names
    rw [children_put]
    split
    · exact h.once names
    · rename_i hnew
      refine List.nodup_append.2 ⟨h.once names, ?_, ?_⟩
      · cases nameIn? names (directory ++ [last]) <;> simp
      · rintro name hname _ hother rfl
        rw [Option.mem_toList, nameIn?_eq_some] at hother
        rw [children_eq, List.mem_filterMap] at hname
        obtain ⟨other, hmem, hother'⟩ := hname
        rw [nameIn?_eq_some] at hother'
        rw [hother, ← hother'] at hnew
        exact hnew hmem
  · intro names name hname
    rw [children_put] at hname
    split at hname
    · exact h.named names name hname
    · rcases List.mem_append.1 hname with hname | hname
      · exact h.named names name hname
      · rw [Option.mem_toList, nameIn?_eq_some] at hname
        obtain ⟨-, hlast⟩ := List.append_inj' hname rfl
        rw [← List.singleton_inj.1 hlast]
        exact hl

theorem erase (h : t.Proper) (names : List String) : (t.erase names).Proper := by
  have hsub (directory : List String) : ((t.erase names).children directory).Sublist (t.children directory) :=
    (List.filter_sublist (l := t.nodes)).filterMap _
  exact ⟨fun directory => (h.once directory).sublist (hsub directory),
    fun directory name hname => h.named directory name ((hsub directory).subset hname)⟩

theorem write (h : t.Proper) {path text : String} (hw : t.write path text = .ok t') : t'.Proper := by
  obtain ⟨directory, last, hnames, -, rfl⟩ := write_eq_ok hw
  obtain ⟨steps, hplain, -⟩ := hnames.plain
  exact h.put (Path.isName_of_mem_steps (hplain.steps_eq ▸ List.mem_append_right _ List.mem_cons_self)) _

theorem ensureDirectory (h : t.Proper) (path : String) : (t.ensureDirectory path).2.Proper := by
  rw [FileTree.ensureDirectory]
  split
  · rename_i made hmade
    rw [makeDirectory] at hmade
    obtain ⟨found, hfound, hmade⟩ := bind_eq_ok hmade
    cases hname : found.name with
    | none => simp [hname] at hmade
    | some last =>
        obtain ⟨steps, hplain, -⟩ := exists_plain hfound hname
        simp only [hname] at hmade
        cases hnode : t.node? (found.directory ++ [last]) with
        | some node => simp [hnode] at hmade
        | none =>
            simp only [hnode] at hmade
            cases hmade
            exact h.put (Path.isName_of_mem_steps (hplain.steps_eq ▸ List.mem_append_right _ List.mem_cons_self)) _
  · exact h

theorem makeDirectoriesUpTo (h : t.Proper) (above : Nat) (path : String) :
    (FileTree.makeDirectoriesUpTo above t path).2.Proper := by
  induction above generalizing t path with
  | zero => exact h.ensureDirectory path
  | succ above ih =>
      have hfirst := h.ensureDirectory path
      rw [FileTree.makeDirectoriesUpTo]
      split
      · rename_i first parent hensure hparent
        rw [hensure] at hfirst
        have hparents := ih hfirst parent
        split
        · rename_i second hmade
          rw [hmade] at hparents
          exact hparents.ensureDirectory path
        · rename_i e second hmade
          rwa [hmade] at hparents
      · rename_i hensure _
        rwa [hensure] at hfirst

theorem makeDirectories (h : t.Proper) (path : String) : (t.makeDirectories path).2.Proper :=
  h.makeDirectoriesUpTo path.length path

theorem removeFile (h : t.Proper) {path : String} (hr : t.removeFile path = .ok t') : t'.Proper := by
  rw [FileTree.removeFile] at hr
  obtain ⟨⟨names, node⟩, -, hr⟩ := bind_eq_ok hr
  cases node with
  | directory => cases hr
  | file text =>
      cases hr
      exact h.erase names

theorem removeDirectory (h : t.Proper) {path : String} (hr : t.removeDirectory path = .ok t') : t'.Proper := by
  rw [FileTree.removeDirectory] at hr
  obtain ⟨names, -, hr⟩ := bind_eq_ok hr
  obtain ⟨place, -, hr⟩ := bind_eq_ok hr
  split at hr
  · cases hr
  · cases hr
    exact h.erase names

end Proper

end WebModules.FileTree
