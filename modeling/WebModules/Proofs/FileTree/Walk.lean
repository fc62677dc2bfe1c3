import Mathlib.Data.List.Induction
import WebModules.Proofs.FileTree
import WebModules.Proofs.Path

/-!
A path leads where its steps lead, one after the other, as long as there are directories to go on from.
So what is found for a path stands in the place that the path itself tells, whatever is in the tree.
-/

namespace WebModules.FileTree

open WebModules.Path

variable {t t' : FileTree} {path : String} {names directory : List String} {steps steps' : List Component}

/-- Takes steps from a directory; each step down leads to a directory. -/
def walk (t : FileTree) (names : List String) : List Component → Except FileError (List String)
  | [] => .ok names
  | .parent :: steps => t.walk names.dropLast steps
  | .root :: steps | .current :: steps => t.walk names steps
  | .normal name :: steps =>
    match t.node? (names ++ [name]) with
    | none => .error .notFound
    | some (.file _) => .error .notADirectory
    | some .directory => t.walk (names ++ [name]) steps

theorem innerComponents_filter (parts : List (List Char)) :
    innerComponents (parts.filter fun part => !part.isEmpty) = innerComponents parts := by
  rw [innerComponents, innerComponents, List.filterMap_filter]
  congr 1
  funext part
  cases part <;> simp

theorem enter_eq_walk {parts : List (List Char)} (h : ∀ part ∈ parts, part ≠ []) (t : FileTree)
    (names : List String) : t.enter names (parts.map String.ofList) = t.walk names (innerComponents parts) := by
  induction parts generalizing names with
  | nil => rfl
  | cons part parts ih =>
      have hrest := ih fun other ho => h other (List.mem_cons_of_mem _ ho)
      have hpart : part ≠ [] := h part List.mem_cons_self
      have hdot : String.ofList part = "." ↔ part = ['.'] := String.ofList_inj
      have hdots : String.ofList part = ".." ↔ part = ['.', '.'] := String.ofList_inj
      rw [List.map_cons, enter]
      by_cases h1 : part = ['.']
      · rw [if_pos (hdot.2 h1), hrest, h1]
        rfl
      · rw [if_neg (hdot.not.2 h1)]
        by_cases h2 : part = ['.', '.']
        · rw [if_pos (hdots.2 h2), hrest, h2]
          rfl
        · have hstep : innerComponents (part :: parts) = .normal (String.ofList part) :: innerComponents parts := by
            simp [innerComponents, hpart, h1, h2]
          rw [if_neg (hdots.not.2 h2), hstep, walk]
          cases t.node? (names ++ [String.ofList part]) with
          | none => rfl
          | some node =>
              cases node with
              | file text => rfl
              | directory => exact hrest _

theorem walk_append (t : FileTree) (names : List String) (steps steps' : List Component) :
    t.walk names (steps ++ steps') = t.walk names steps >>= fun found => t.walk found steps' := by
  fun_induction walk t names steps with
  | case1 names => rfl
  | case2 names steps ih => exact ih
  | case3 names steps ih => exact ih
  | case4 names steps ih => exact ih
  | case5 names name steps hnode => rw [List.cons_append, walk, hnode]; rfl
  | case6 names name steps text hnode => rw [List.cons_append, walk, hnode]; rfl
  | case7 names name steps hnode ih => rw [List.cons_append, walk, hnode]; exact ih

/-- All directories on the way from the root exist. -/
def Stands (t : FileTree) (names : List String) : Prop :=
  ∀ above, above <+: names → t.node? above = some .directory

theorem stands_nil (t : FileTree) : t.Stands [] := by
  intro above h
  rw [List.prefix_nil.1 h]
  rfl

theorem Stands.node (h : t.Stands names) : t.node? names = some .directory := h names List.prefix_rfl

/-- A walk that ends is one along directories to the place that its steps lead to. -/
theorem walk_eq_ok (h : t.walk names steps = .ok directory) (hs : t.Stands names) :
    directory = steps.foldl follow names ∧ t.Stands directory := by
  fun_induction walk t names steps with
  | case1 names =>
      cases h
      exact ⟨rfl, hs⟩
  | case2 names steps ih =>
      apply ih h
      intro above ha
      exact hs above (ha.trans (List.dropLast_prefix names))
  | case3 names steps ih => exact ih h hs
  | case4 names steps ih => exact ih h hs
  | case5 | case6 => cases h
  | case7 names name steps hnode ih =>
      apply ih h
      intro above ha
      rcases List.prefix_concat_iff.1 ha with rfl | ha
      · exact hnode
      · exact hs above ha

theorem Keeps.walk {changed : List String → Prop} (h : Keeps changed t t')
    (hw : t.walk names steps = .ok directory) : t'.walk names steps = .ok directory := by
  fun_induction FileTree.walk t names steps with
  | case1 names => exact hw
  | case2 names steps ih => exact ih hw
  | case3 names steps ih => exact ih hw
  | case4 names steps ih => exact ih hw
  | case5 | case6 => cases hw
  | case7 names name steps hnode ih =>
      rw [FileTree.walk, h.directory _ hnode]
      exact ih hw

/-! Places of paths -/

/-- A path that ends in a name, and the steps to the directory that the name is in. -/
structure Plain (path : String) (steps : List Component) (last : String) : Prop where
  ends : lastPart? path = some last
  named : last ≠ "." ∧ last ≠ ".."
  steps_eq : Path.steps path = steps ++ [.normal last]
  entered : ∀ t : FileTree, t.enter [] (parts path).dropLast = t.walk [] steps

theorem parts_eq (path : String) : parts path =
    ((Text.split '/' path.toList).filter fun part => !part.isEmpty).map String.ofList := rfl

theorem plain_of_lastPart {last : String} (h : lastPart? path = some last) (hn : last ≠ "." ∧ last ≠ "..") :
    ∃ steps, Plain path steps last := by
  have hsteps := innerComponents_filter (Text.split '/' path.toList)
  have hparts := parts_eq path
  have hne : ∀ part ∈ (Text.split '/' path.toList).filter fun part => !part.isEmpty, part ≠ [] := by
    intro part hp
    simpa using (List.mem_filter.1 hp).2
  generalize (Text.split '/' path.toList).filter (fun part => !part.isEmpty) = found at hsteps hparts hne
  have hlast := h
  rw [lastPart?, hparts, List.getLast?_map, Option.map_eq_some_iff] at hlast
  obtain ⟨part, hpart, rfl⟩ := hlast
  obtain ⟨before, rfl⟩ := List.getLast?_eq_some_iff.1 hpart
  have hdot : part ≠ ['.'] := fun heq => hn.1 (by rw [heq])
  have hdots : part ≠ ['.', '.'] := fun heq => hn.2 (by rw [heq])
  have hsingle : innerComponents [part] = [.normal (String.ofList part)] :=
    innerComponents_singleton (hne part (by simp)) hdot hdots
  refine ⟨innerComponents before, h, hn, ?_, ?_⟩
  · rw [Path.steps, charSteps, ← hsteps, ← hsingle]
    exact List.filterMap_append
  · intro t
    rw [hparts, List.map_append, List.map_singleton, List.dropLast_concat]
    exact enter_eq_walk (fun other ho => hne other (List.mem_append_left _ ho)) t []

/-- Whether a path ends in a slash. -/
def endsInSlash (path : String) : Bool := path.toList.getLast? = some '/'

theorem Plain.locate {last : String} (h : Plain path steps last) (t : FileTree) :
    t.locate path = (t.walk [] steps).map fun directory => ⟨directory, some last, endsInSlash path⟩ := by
  have hlast : (parts path).getLast? = some last := h.ends
  have hdots : ¬ (last = "." ∨ last = "..") := not_or.2 h.named
  rw [FileTree.locate, hlast]
  dsimp only
  rw [if_neg hdots, h.entered]
  cases t.walk [] steps <;> rfl

/-- A path that ends in no name leads to a directory. -/
theorem locate_of_not_plain (h : ∀ steps last, ¬ Plain path steps last) (t : FileTree) :
    t.locate path = (t.walk [] (Path.steps path)).map fun directory => ⟨directory, none, endsInSlash path⟩ := by
  have hwhole : t.enter [] (parts path) = t.walk [] (Path.steps path) := by
    rw [parts_eq, Path.steps, charSteps, ← innerComponents_filter]
    apply enter_eq_walk
    intro part hp
    simpa using (List.mem_filter.1 hp).2
  rw [FileTree.locate]
  cases hlast : (parts path).getLast? with
  | none =>
      have hnil : parts path = [] := List.getLast?_eq_none_iff.1 hlast
      rw [hnil] at hwhole
      rw [← hwhole]
      rfl
  | some last =>
      dsimp only
      by_cases hdots : last = "." ∨ last = ".."
      · rw [if_pos hdots, hwhole]
        cases t.walk [] (Path.steps path) <;> rfl
      · obtain ⟨steps, hplain⟩ := plain_of_lastPart hlast (not_or.1 hdots)
        exact absurd hplain (h steps last)

theorem locate_cases {found : Place} (h : t.locate path = .ok found) :
    (∃ steps last directory, Plain path steps last ∧ t.walk [] steps = .ok directory ∧
      found = ⟨directory, some last, endsInSlash path⟩) ∨
    ∃ directory, t.walk [] (Path.steps path) = .ok directory ∧ found = ⟨directory, none, endsInSlash path⟩ := by
  by_cases hp : ∃ steps last, Plain path steps last
  · obtain ⟨steps, last, hplain⟩ := hp
    rw [hplain.locate] at h
    obtain ⟨directory, hwalk, rfl⟩ := map_eq_ok h
    exact .inl ⟨steps, last, directory, hplain, hwalk, rfl⟩
  · rw [locate_of_not_plain (by simpa using hp)] at h
    obtain ⟨directory, hwalk, rfl⟩ := map_eq_ok h
    exact .inr ⟨directory, hwalk, rfl⟩

theorem Plain.place_eq {last : String} (h : Plain path steps last)
    (hw : t.walk [] steps = .ok directory) : directory ++ [last] = place path := by
  obtain ⟨rfl, -⟩ := walk_eq_ok hw (stands_nil t)
  rw [place, h.steps_eq, List.foldl_append]
  rfl

theorem Plain.toNames {last : String} (h : Plain path steps last) (hs : endsInSlash path = false)
    (hw : t.walk [] steps = .ok directory) : Names t path directory last :=
  ⟨h.ends, h.named, (h.entered t).trans hw, of_decide_eq_false hs⟩

theorem Names.plain {last : String} (h : Names t path directory last) :
    ∃ steps, Plain path steps last ∧ t.walk [] steps = .ok directory := by
  obtain ⟨steps, hplain⟩ := plain_of_lastPart h.ends h.named
  exact ⟨steps, hplain, (hplain.entered t).symm.trans h.entered⟩

theorem Names.place_eq {last : String} (h : Names t path directory last) :
    directory ++ [last] = place path := by
  obtain ⟨steps, hplain, hwalk⟩ := h.plain
  exact hplain.place_eq hwalk

/-- Another path of the same steps leads to the same file. -/
theorem Names.of_steps {other last last' : String} (h : Names t path directory last)
    (hs : Path.steps path = Path.steps other) (hplain : Plain other steps last') (hslash : endsInSlash other = false) :
    Names t other directory last' := by
  obtain ⟨steps', hplain', hwalk⟩ := h.plain
  rw [hplain'.steps_eq, hplain.steps_eq] at hs
  obtain ⟨rfl, -⟩ := List.append_inj' hs rfl
  exact hplain.toNames hslash hwalk

theorem find_eq_directory_iff : t.find path = .ok (names, .directory) ↔ t.walk [] (Path.steps path) = .ok names := by
  rw [find]
  by_cases h : ∃ steps last, Plain path steps last
  · obtain ⟨steps, last, hplain⟩ := h
    rw [hplain.locate, hplain.steps_eq, walk_append]
    cases t.walk [] steps with
    | error e => simp [bind, Except.bind, Except.map]
    | ok directory =>
        simp only [bind, Except.bind, Except.map, FileTree.walk]
        cases t.node? (directory ++ [last]) with
        | none => simp
        | some node =>
            cases node with
            | directory => simp [pure, Except.pure]
            | file text => cases endsInSlash path <;> simp [pure, Except.pure]
  · rw [locate_of_not_plain (by simpa using h)]
    cases t.walk [] (Path.steps path) with
    | error e => simp [bind, Except.bind, Except.map]
    | ok directory => simp [bind, Except.bind, Except.map, pure, Except.pure]

theorem find_eq_ok {node : FileNode} (h : t.find path = .ok (names, node)) :
    names = place path ∧ t.node? names = some node := by
  cases node with
  | directory =>
      obtain ⟨hplace, hstands⟩ := walk_eq_ok (find_eq_directory_iff.1 h) (stands_nil t)
      exact ⟨hplace, hstands.node⟩
  | file text =>
      obtain ⟨directory, last, hnames, rfl, hnode⟩ := find_eq_file h
      exact ⟨hnames.place_eq, hnode⟩

/-! Files in their places -/

/-- A path stands for a file that has a text, in directories that exist. -/
def HasFile (t : FileTree) (path text : String) : Prop :=
  t.Stands (place path).dropLast ∧ t.node? (place path) = some (.file text)

theorem hasFile_of_read {text : String} (h : t.read path = .ok text) : t.HasFile path text := by
  obtain ⟨directory, last, hnames, hnode⟩ := read_eq_ok_iff.1 h
  obtain ⟨steps, -, hwalk⟩ := hnames.plain
  rw [HasFile, ← hnames.place_eq, List.dropLast_concat]
  exact ⟨(walk_eq_ok hwalk (stands_nil t)).2, hnode⟩

theorem HasFile.keep {text : String} {changed : List String → Prop} (h : t.HasFile path text)
    (hk : Keeps changed t t') (hn : ¬ changed (place path)) : t'.HasFile path text :=
  ⟨fun above ha => hk.directory above (h.1 above ha), hk.file _ text hn h.2⟩

theorem HasFile.exists_concat {text : String} (h : t.HasFile path text) :
    ∃ directory last, place path = directory ++ [last] := by
  cases hp : place path using List.reverseRecOn with
  | nil =>
      have hnode := h.2
      rw [hp] at hnode
      cases hnode
  | append_singleton directory last => exact ⟨directory, last, rfl⟩

/-! What exists already -/

theorem makeDirectory_existing (h : t.walk [] (Path.steps path) = .ok directory) :
    t.makeDirectory path = .error .alreadyExists := by
  rw [makeDirectory]
  by_cases hp : ∃ steps last, Plain path steps last
  · obtain ⟨steps, last, hplain⟩ := hp
    rw [hplain.steps_eq, walk_append] at h
    rw [hplain.locate]
    cases hw : t.walk [] steps with
    | error e => simp [hw, bind, Except.bind] at h
    | ok above =>
        simp only [hw, bind, Except.bind, FileTree.walk] at h
        simp only [bind, Except.bind, Except.map]
        cases hnode : t.node? (above ++ [last]) with
        | none => simp [hnode] at h
        | some node => rfl
  · rw [locate_of_not_plain (by simpa using hp), h]
    rfl

theorem ensureDirectory_existing (h : t.walk [] (Path.steps path) = .ok directory) :
    t.ensureDirectory path = (.ok (), t) := by
  have hfound : t.isDirectory path = true := by
    rw [isDirectory, findDirectory, find_eq_directory_iff.2 h]
    rfl
  rw [ensureDirectory, makeDirectory_existing h]
  simp [hfound]

theorem makeDirectoriesUpTo_existing {above : Nat} (h : t.walk [] (Path.steps path) = .ok directory) :
    makeDirectoriesUpTo above t path = (.ok (), t) := by
  cases above with
  | zero => exact ensureDirectory_existing h
  | succ above => rw [makeDirectoriesUpTo, ensureDirectory_existing h]

theorem makeDirectories_existing (h : t.walk [] (Path.steps path) = .ok directory) :
    t.makeDirectories path = (.ok (), t) :=
  makeDirectoriesUpTo_existing h

theorem makeDirectories_above {text parent : String} (h : t.read path = .ok text)
    (hp : parent? path = some parent) : t.makeDirectories parent = (.ok (), t) := by
  obtain ⟨directory, last, hnames, -⟩ := read_eq_ok_iff.1 h
  obtain ⟨steps, hplain, hwalk⟩ := hnames.plain
  have habove : t.walk [] (Path.steps parent) = .ok directory := by
    rw [steps_parent hp, hplain.steps_eq, List.dropLast_concat, hwalk]
  exact makeDirectories_existing habove

theorem write_existing {text : String} (h : t.read path = .ok text) (new : String) :
    t.write path new = .ok (t.put (place path) (.file new)) := by
  obtain ⟨directory, last, hnames, hnode⟩ := read_eq_ok_iff.1 h
  rw [write, hnames.locate, ← hnames.place_eq]
  simp [bind, Except.bind, pure, Except.pure, hnode]

/-! Places where there is no file -/

/-- A path leads to a place in a directory where there is nothing. -/
def Vacant (t : FileTree) (path : String) : Prop :=
  ∃ directory last, Names t path directory last ∧ t.node? (directory ++ [last]) = none

/-- A path leads to a directory by its name. -/
def Blocked (t : FileTree) (path : String) : Prop :=
  ∃ directory last, Names t path directory last ∧ t.node? (directory ++ [last]) = some .directory

theorem Vacant.read (h : t.Vacant path) : t.read path = .error .notFound := by
  obtain ⟨directory, last, hn, hnode⟩ := h
  simp [FileTree.read, FileTree.find, hn.locate, hnode, bind, Except.bind]

theorem Vacant.write (h : t.Vacant path) (text : String) :
    t.write path text = .ok (t.put (place path) (.file text)) := by
  obtain ⟨directory, last, hn, hnode⟩ := h
  rw [FileTree.write, hn.locate, ← hn.place_eq]
  simp [bind, Except.bind, pure, Except.pure, hnode]

theorem Blocked.read (h : t.Blocked path) : t.read path = .error .isADirectory := by
  obtain ⟨directory, last, hn, hnode⟩ := h
  simp [FileTree.read, FileTree.find, hn.locate, hnode, bind, Except.bind, pure, Except.pure]

end WebModules.FileTree
