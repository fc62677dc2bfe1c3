import WebModules.Proofs.FileTree.Walk

/-!
Where a tree changes when directories are made and a file is written: in the place of the file, and in
places on the way to the directories, where nothing was before.
-/

namespace WebModules.FileTree

open WebModules.Path

variable {t t' t'' : FileTree} {path : String} {names : List String} {changed made : List String → Prop}

/-- The steps of a path lead to a place on their way. -/
def Passes (path : String) (names : List String) : Prop :=
  ∃ before, before <+: steps path ∧ before.foldl follow [] = names

/-- Directories stay.  Away from the places of files that are written, all that changes is that
directories are made in some places. -/
structure Grows (changed made : List String → Prop) (t t' : FileTree) : Prop where
  directory : ∀ names, t.node? names = some .directory → t'.node? names = some .directory
  other : ∀ names, ¬ changed names → t'.node? names = t.node? names ∨
    made names ∧ t.node? names = none ∧ t'.node? names = some .directory

namespace Grows

theorem refl (changed made : List String → Prop) (t : FileTree) : Grows changed made t t :=
  ⟨fun _ h => h, fun _ _ => .inl rfl⟩

theorem trans (h : Grows changed made t t') (h' : Grows changed made t' t'') : Grows changed made t t'' := by
  refine ⟨fun names hd => h'.directory names (h.directory names hd), fun names hn => ?_⟩
  rcases h.other names hn with hsame | ⟨hmade, hnone, hdirectory⟩
  · rw [← hsame]
    exact h'.other names hn
  · exact .inr ⟨hmade, hnone, h'.directory names hdirectory⟩

theorem mono {changed' made' : List String → Prop} (h : Grows changed made t t')
    (hc : ∀ names, changed names → changed' names) (hm : ∀ names, made names → changed' names ∨ made' names) :
    Grows changed' made' t t' := by
  refine ⟨h.directory, fun names hn => ?_⟩
  rcases h.other names (fun hchanged => hn (hc names hchanged)) with hsame | ⟨hmade, hnone, hdirectory⟩
  · exact .inl hsame
  · exact .inr ⟨(hm names hmade).resolve_left hn, hnone, hdirectory⟩

theorem keeps (h : Grows changed made t t') : Keeps changed t t' := by
  refine ⟨h.directory, fun names text hn hf => ?_⟩
  rcases h.other names hn with hsame | ⟨-, hnone, -⟩
  · rw [hsame, hf]
  · rw [hnone] at hf
    cases hf

end Grows

theorem grows_put_file (hn : names ≠ []) (hd : t.node? names ≠ some .directory) (text : String)
    (made : List String → Prop) : Grows (· = names) made t (t.put names (.file text)) := by
  refine ⟨(keeps_put hn hd).directory, fun other ho => ?_⟩
  rw [node?_put hn, if_neg ho]
  exact .inl rfl

theorem grows_put_directory (hn : names ≠ []) (hnone : t.node? names = none) (changed : List String → Prop) :
    Grows changed (· = names) t (t.put names .directory) := by
  refine ⟨(keeps_put hn (by simp [hnone])).directory, fun other _ => ?_⟩
  rw [node?_put hn]
  by_cases ho : other = names
  · exact .inr ⟨ho, ho ▸ hnone, if_pos ho⟩
  · exact .inl (if_neg ho)

theorem grows_write {text : String} (h : t.write path text = .ok t') (made : List String → Prop) :
    Grows (· = place path) made t t' := by
  obtain ⟨directory, last, hnames, hnode, rfl⟩ := write_eq_ok h
  rw [← hnames.place_eq]
  exact grows_put_file (by simp) hnode text made

theorem passes_place (path : String) : Passes path (place path) := ⟨steps path, List.prefix_rfl, rfl⟩

theorem Passes.of_parent {parent : String} (hp : parent? path = some parent) (h : Passes parent names) :
    Passes path names := by
  obtain ⟨before, hbefore, hnames⟩ := h
  rw [steps_parent hp] at hbefore
  exact ⟨before, hbefore.trans (List.dropLast_prefix _), hnames⟩

theorem exists_plain {found : Place} {last : String} (h : t.locate path = .ok found) (hn : found.name = some last) :
    ∃ steps, Plain path steps last ∧ t.walk [] steps = .ok found.directory := by
  rcases locate_cases h with ⟨steps, other, directory, hplain, hwalk, rfl⟩ | ⟨directory, -, rfl⟩
  · cases hn
    exact ⟨steps, hplain, hwalk⟩
  · cases hn

theorem locate_place {found : Place} {last : String} (h : t.locate path = .ok found) (hn : found.name = some last) :
    found.directory ++ [last] = Path.place path := by
  obtain ⟨steps, hplain, hw⟩ := exists_plain h hn
  exact hplain.place_eq hw

theorem grows_makeDirectory (changed : List String → Prop) (h : t.makeDirectory path = .ok t') :
    Grows changed (Passes path) t t' := by
  rw [makeDirectory] at h
  obtain ⟨found, hfound, h⟩ := bind_eq_ok h
  cases hname : found.name with
  | none => simp [hname] at h
  | some last =>
      have hplace := locate_place hfound hname
      simp only [hname, hplace] at h
      cases hnode : t.node? (Path.place path) with
      | some node => simp [hnode] at h
      | none =>
          simp only [hnode] at h
          cases h
          have hput := grows_put_directory (by rw [← hplace]; simp) hnode changed
          exact hput.mono (fun _ hc => hc) fun names hm => .inr (hm ▸ passes_place path)

theorem grows_ensureDirectory (changed : List String → Prop) (t : FileTree) (path : String) :
    Grows changed (Passes path) t (t.ensureDirectory path).2 := by
  rw [ensureDirectory]
  split
  · rename_i made hmade
    exact grows_makeDirectory changed hmade
  · exact .refl _ _ t

theorem grows_makeDirectoriesUpTo (changed : List String → Prop) (above : Nat) (t : FileTree) (path : String) :
    Grows changed (Passes path) t (makeDirectoriesUpTo above t path).2 := by
  induction above generalizing t path with
  | zero => exact grows_ensureDirectory changed t path
  | succ above ih =>
      have hfirst := grows_ensureDirectory changed t path
      rw [makeDirectoriesUpTo]
      split
      · rename_i first parent hensure hparent
        rw [hensure] at hfirst
        have hparents : Grows changed (Passes path) first (makeDirectoriesUpTo above first parent).2 :=
          (ih first parent).mono (fun _ hc => hc) fun _ hm => .inr (hm.of_parent hparent)
        split
        · rename_i second hmade
          rw [hmade] at hparents
          exact (hfirst.trans hparents).trans (grows_ensureDirectory changed second path)
        · rename_i e second hmade
          rw [hmade] at hparents
          exact hfirst.trans hparents
      · rename_i hensure _
        rw [hensure] at hfirst
        exact hfirst

theorem grows_makeDirectories (changed : List String → Prop) (t : FileTree) (path : String) :
    Grows changed (Passes path) t (t.makeDirectories path).2 :=
  grows_makeDirectoriesUpTo changed _ t path

theorem keeps_makeDirectories (changed : List String → Prop) (t : FileTree) (path : String) :
    Keeps changed t (t.makeDirectories path).2 :=
  (grows_makeDirectories changed t path).keeps

/-! Files that stay -/

/-- A path leads to a file. -/
def Readable (t : FileTree) (path : String) : Prop := ∃ text, t.read path = .ok text

/-- Every path that leads to a file in one tree leads to one in another tree. -/
def Preserves (t t' : FileTree) : Prop := ∀ path, t.Readable path → t'.Readable path

theorem Preserves.refl (t : FileTree) : Preserves t t := fun _ h => h

theorem Preserves.trans {t'' : FileTree} (h : Preserves t t') (h' : Preserves t' t'') : Preserves t t'' :=
  fun path hr => h' path (h path hr)

theorem preserves_makeDirectories (t : FileTree) (path : String) : Preserves t (t.makeDirectories path).2 := by
  rintro other ⟨text, hr⟩
  have hkeeps := keeps_makeDirectories (fun _ => False) t path
  obtain ⟨directory, last, hnames, hnode⟩ := read_eq_ok_iff.1 hr
  exact ⟨text, read_eq_ok_iff.2 ⟨directory, last, hnames.keep hkeeps, hkeeps.file _ text id hnode⟩⟩

/-- Where a file is written, there is a file in the end, whether one has been there before or not. -/
theorem preserves_write {text : String} (h : t.write path text = .ok t') : Preserves t t' := by
  rintro other ⟨old, hr⟩
  obtain ⟨above, name, hwritten, hplain, rfl⟩ := write_eq_ok h
  have hne : above ++ [name] ≠ [] := by simp
  obtain ⟨directory, last, hnames, hnode⟩ := read_eq_ok_iff.1 hr
  have hput : Keeps (· = above ++ [name]) t (t.put (above ++ [name]) (.file text)) := keeps_put hne hplain
  have hkept := hnames.keep hput
  by_cases hsame : directory ++ [last] = above ++ [name]
  · exact ⟨text, read_eq_ok_iff.2 ⟨directory, last, hkept, by rw [node?_put hne, if_pos hsame]⟩⟩
  · exact ⟨old, read_eq_ok_iff.2 ⟨directory, last, hkept, by rw [node?_put hne, if_neg hsame, hnode]⟩⟩

end WebModules.FileTree
