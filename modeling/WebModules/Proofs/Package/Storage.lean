import WebModules.ImportMap.Removal
import WebModules.Proofs.Package.Layout

/-!
The places of a module as a path of the file system and as a path of a URL.  They agree where packages are kept in the
project itself, in a directory that names alone lead to, and the module has a file name.
-/

namespace WebModules

open WebModules.Path

namespace Layout

/-- The names that the path of a URL has for the output directory. -/
def urlNames (projectRoot outputDir : String) : List String :=
  let output := push projectRoot outputDir
  ((componentsAfter? projectRoot output).getD (components output)).filterMap normalName?

/-- Packages are kept in the project, in a directory that names alone lead to. -/
def Inside (l : Layout) : Prop :=
  ∃ names : List String, components l.outputDir = components l.projectRoot ++ names.map .normal

theorem urlRoot_of (projectRoot outputDir : String) :
    (of projectRoot outputDir).urlRoot = String.intercalate "/" (urlNames projectRoot outputDir) := by
  rw [of, urlNames]

variable {projectRoot outputDir : String}

theorem urlNames_of_inside {names : List String}
    (h : components (push projectRoot outputDir) = components projectRoot ++ names.map .normal) :
    urlNames projectRoot outputDir = names := by
  rw [urlNames, componentsAfter?, h, strip_append, Option.getD_some, filterMap_names]

theorem isName_of_mem_urlNames (projectRoot outputDir : String) :
    ∀ name ∈ urlNames projectRoot outputDir, IsName name := by
  intro name hname
  obtain ⟨c, hc, hnormal⟩ := List.mem_filterMap.1 hname
  obtain rfl := normalName?_eq_some.1 hnormal
  suffices hmem : .normal name ∈ components (push projectRoot outputDir) from isName_of_mem_components hmem
  cases hstrip : componentsAfter? projectRoot (push projectRoot outputDir) with
  | none => rwa [hstrip] at hc
  | some within =>
      rw [hstrip] at hc
      rw [strip_eq_some hstrip]
      exact List.mem_append_right _ hc

variable (name : String) (target : Option String) (version : String)

theorem relativePath_eq (l : Layout) : (l.storage name target version).relativePath =
    (l.storage name target version).relativeDir ++ fileName name target := by
  rw [storage, fileName]

theorem path_eq (l : Layout) : (l.storage name target version).path =
    push (l.storage name target version).dir (fileName name target) := by
  rw [storage, fileName]

theorem exists_relativeDir (l : Layout) :
    ∃ before, (l.storage name target version).relativeDir.toList = before ++ ['/'] := by
  rw [storage]
  dsimp only
  split
  · exact ⟨_, String.toList_append⟩
  · exact ⟨_, String.toList_append⟩

theorem split_relativePath :
    Text.split '/' ((of projectRoot outputDir).storage name target version).relativePath.toList =
      [] :: (urlNames projectRoot outputDir).map String.toList ++ (Text.split '/' name.toList ++
        (Text.split '/' version.toList ++ Text.split '/' (fileName name target).toList)) := by
  have hroot := isName_of_mem_urlNames projectRoot outputDir
  rw [relativePath_eq, storage, urlRoot_of]
  dsimp only
  by_cases hnames : urlNames projectRoot outputDir = []
  · have htext : ("/" ++ name ++ "/" ++ version ++ "/" ++ fileName name target).toList =
        [] ++ '/' :: (name.toList ++ '/' :: (version.toList ++ '/' :: (fileName name target).toList)) := by simp
    rw [hnames, if_pos (by rfl), htext, Text.split_append_cons, Text.split_append_cons, Text.split_append_cons]
    rfl
  · have htext : (String.intercalate "/" (urlNames projectRoot outputDir)).toList =
        List.intercalate ['/'] ((urlNames projectRoot outputDir).map String.toList) := String.toList_intercalate
    have hsplit := split_intercalate hnames hroot
    rw [← htext] at hsplit
    have hne : ¬ (String.intercalate "/" (urlNames projectRoot outputDir)).isEmpty = true := by
      intro hempty
      obtain ⟨first, hfirst⟩ := List.exists_mem_of_ne_nil _ hnames
      have hmem := hsplit ▸ List.mem_map_of_mem hfirst
      rw [String.isEmpty_iff.1 hempty] at hmem
      exact (hroot first hfirst).nonempty (List.mem_singleton.1 hmem)
    have hwhole : ("/" ++ String.intercalate "/" (urlNames projectRoot outputDir) ++ "/" ++ name ++ "/" ++ version ++
        "/" ++ fileName name target).toList =
          [] ++ '/' :: ((String.intercalate "/" (urlNames projectRoot outputDir)).toList ++ '/' :: (name.toList ++
            '/' :: (version.toList ++ '/' :: (fileName name target).toList))) := by
      simp only [String.toList_append, List.append_assoc]
      rfl
    rw [if_neg hne, hwhole, Text.split_append_cons, Text.split_append_cons, Text.split_append_cons,
      Text.split_append_cons, hsplit]
    rfl

theorem steps_relativePath : steps ((of projectRoot outputDir).storage name target version).relativePath =
    (urlNames projectRoot outputDir).map .normal ++
      (steps name ++ (steps version ++ steps (fileName name target))) := by
  rw [steps, charSteps, split_relativePath, ← innerComponents_names (isName_of_mem_urlNames _ _)]
  simp only [innerComponents, List.filterMap_append, List.cons_append, List.filterMap_cons]
  rfl

theorem steps_path (hv : isAbsolute version = false) (hf : isAbsolute (fileName name target) = false) :
    steps ((of projectRoot outputDir).storage name target version).path =
      steps (push projectRoot outputDir) ++ (steps name ++ (steps version ++ steps (fileName name target))) := by
  rw [path_eq, steps_push hf, storage, steps_packageDir hv]
  simp only [List.append_assoc]
  rfl

/-- What stands before the file name is the directory as long as no slash is in that name. -/
theorem parentDir_relativePath (l : Layout) : ImportMap.parentDir (l.storage name target version).relativePath =
    (l.storage name target version).relativeDir ↔ '/' ∉ (fileName name target).toList := by
  obtain ⟨before, hbefore⟩ := exists_relativeDir name target version l
  have hpath : (l.storage name target version).relativePath.toList =
      before ++ '/' :: (fileName name target).toList := by
    rw [relativePath_eq, String.toList_append, hbefore, List.append_assoc, List.singleton_append]
  rw [ImportMap.parentDir, hpath, ← String.ofList_toList (s := (l.storage name target version).relativeDir), hbefore,
    String.ofList_inj]
  constructor
  · intro h
    rw [Specifier.directory] at h
    split at h
    · rename_i before' after hsplit
      obtain rfl : before' = before := List.append_cancel_right h
      obtain rfl : (fileName name target).toList = after := by simpa using Text.splitLast?_eq_some hsplit
      exact Text.notMem_of_splitLast? hsplit
    · simp at h
  · intro h
    rw [Specifier.directory, Text.splitLast?_append h]

/-! Where both paths start -/

theorem isAbsolute_nameParts {path : String} : ∀ part ∈ nameParts path, isAbsolute part = false := by
  intro part hpart
  obtain ⟨cs, hcs, rfl⟩ := List.mem_map.1 hpart
  exact isAbsolute_of_notMem (by simpa using Text.notMem_of_mem_split hcs)

theorem firstStart_nameParts {path : String} (h : isAbsolute path = false) (others : List String) :
    firstStart (nameParts path ++ others) = firstStart (path :: others) := by
  cases hpath : path.toList with
  | nil =>
      rw [String.toList_eq_nil_iff.1 hpath]
      rfl
  | cons c cs =>
      have hne : path ≠ "" := by
        rintro rfl
        cases hpath
      have hc : c ≠ '/' := by
        rintro rfl
        rw [isAbsolute_iff.2 ⟨cs, hpath⟩] at h
        cases h
      obtain ⟨part, parts, hsplit⟩ := Text.split_cons_of_ne hc cs
      have hslash : '/' ∉ c :: part := Text.notMem_of_mem_split (hsplit ▸ List.mem_cons_self)
      have hstart : start (String.ofList (c :: part)) = start path := by
        rw [start, start, charStart, charStart, String.toList_ofList, hpath, hsplit, Text.split_of_notMem hslash]
        rfl
      rw [nameParts, hpath, hsplit, List.map_cons, List.cons_append, firstStart_cons (by simp), firstStart_cons hne,
        hstart]

theorem start_pathFor (l : Layout) (path : String) :
    start (l.pathFor path) = firstStart (l.projectRoot :: nameParts path) := by
  rw [pathFor, start_pushAll fun part hpart => isAbsolute_nameParts part (List.mem_of_mem_filter hpart), firstStart,
    firstStart, firstStart_filter]

theorem start_path {l : Layout} (hv : isAbsolute version = false) (hf : isAbsolute (fileName name target) = false) :
    start (l.storage name target version).path =
      firstStart (l.outputDir :: (nameParts name ++ [version, fileName name target])) := by
  have hall : pushAll l.outputDir (nameParts name ++ [version, fileName name target]) =
      (l.storage name target version).path := by
    rw [pushAll, List.foldl_append]
    rfl
  have hparts : ∀ part ∈ nameParts name ++ [version, fileName name target], isAbsolute part = false := by
    intro part hpart
    rcases List.mem_append.1 hpart with hpart | hpart
    · exact isAbsolute_nameParts part hpart
    · simp only [List.mem_cons, List.not_mem_nil, or_false] at hpart
      rcases hpart with rfl | rfl
      · exact hv
      · exact hf
  rw [← hall, start_pushAll hparts]

/-! Where both paths lead -/

/-- The places of a module are the same whether they are read as paths of files or as paths of URLs. -/
structure Agrees (l : Layout) (s : Storage) : Prop where
  found : same (l.pathFor s.relativePath) s.path = true
  file : ∃ file, components s.path = components s.dir ++ [.normal file]
  directory : ImportMap.parentDir s.relativePath = s.relativeDir

/-- A module is kept in the project: its version leads nowhere else, and it has a file name. -/
structure Kept (l : Layout) (name : String) (target : Option String) (version : String) : Prop where
  inside : l.Inside
  version : isAbsolute version = false
  file : fileName? (target.getD name) = none → '/' ∉ (target.getD name).toList

variable {name target version}

/-- A slash is in a file name only where a whole path is one, since it ends in no name. -/
theorem slash_mem_fileName : '/' ∈ (fileName name target).toList ↔
    fileName? (target.getD name) = none ∧ '/' ∈ (target.getD name).toList := by
  have hextension : '/' ∉ ".js".toList := by decide
  rw [fileName, String.toList_append, List.mem_append, or_iff_left hextension, stem]
  split
  · rename_i last hlast
    rw [hlast]
    simpa using notMem_stemOfName (isName_of_fileName? hlast).slash
  · rename_i hnone
    exact (and_iff_right hnone).symm

theorem Kept.notMem_fileName {l : Layout} (h : l.Kept name target version) : '/' ∉ (fileName name target).toList :=
  fun hslash => h.file (slash_mem_fileName.1 hslash).1 (slash_mem_fileName.1 hslash).2

theorem isName_fileName (h : '/' ∉ (fileName name target).toList) : IsName (fileName name target) := by
  have hlong : 3 ≤ (fileName name target).toList.length := by
    have hthree : ".js".toList.length = 3 := rfl
    rw [fileName, String.toList_append, List.length_append, hthree]
    exact Nat.le_add_left _ _
  constructor
  · exact h
  all_goals
    intro hshort
    rw [hshort] at hlong
    exact absurd hlong (by decide)

theorem steps_found_iff (hv : isAbsolute version = false) (hf : isAbsolute (fileName name target) = false) :
    let l := of projectRoot outputDir
    let s := l.storage name target version
    steps (l.pathFor s.relativePath) = steps s.path ↔
      steps (push projectRoot outputDir) = steps projectRoot ++ (urlNames projectRoot outputDir).map .normal := by
  dsimp only
  rw [steps_pathFor, steps_relativePath, steps_path _ _ _ hv hf, ← List.append_assoc, List.append_left_inj]
  exact eq_comm

theorem nameParts_relativePath : nameParts ((of projectRoot outputDir).storage name target version).relativePath =
    "" :: urlNames projectRoot outputDir ++
      (nameParts name ++ (nameParts version ++ nameParts (fileName name target))) := by
  rw [nameParts, split_relativePath]
  simp [nameParts, Function.comp_def]

/-- Where packages are kept in the project, both paths of a module start alike. -/
theorem start_found {names : List String} (hv : isAbsolute version = false)
    (hf : isAbsolute (fileName name target) = false)
    (h : components (push projectRoot outputDir) = components projectRoot ++ names.map .normal)
    (hstart : start (push projectRoot outputDir) = start projectRoot) :
    let l := of projectRoot outputDir
    let s := l.storage name target version
    start (l.pathFor s.relativePath) = start s.path := by
  have htail : firstStart (nameParts name ++ (nameParts version ++ nameParts (fileName name target))) =
      firstStart (nameParts name ++ [version, fileName name target]) := by
    apply firstStart_append_congr
    rw [firstStart_nameParts hv]
    have hfile := firstStart_nameParts hf []
    rw [List.append_nil] at hfile
    exact firstStart_append_congr hfile [version]
  have hnames := urlNames_of_inside h
  dsimp only
  rw [start_pathFor, start_path _ _ _ hv hf, nameParts_relativePath]
  change firstStart (projectRoot :: _) = firstStart (push projectRoot outputDir :: _)
  -- Nothing is written for an empty root, so that both paths start with the first name below it.
  by_cases hroot : projectRoot = ""
  · cases hn : names with
    | nil =>
        have hempty : push projectRoot outputDir = "" := by
          apply eq_empty_of_components
          rw [h, hroot, hn]
          rfl
        rw [hnames, hn, hempty, hroot]
        exact htail
    | cons first rest =>
        have hne : push projectRoot outputDir ≠ "" := by
          intro hempty
          rw [hempty, hroot, hn] at h
          cases h
        have hfirst : IsName first := by
          apply isName_of_mem_urlNames projectRoot outputDir
          rw [hnames, hn]
          exact List.mem_cons_self
        have hfirst_ne : first ≠ "" := by
          rintro rfl
          exact hfirst.nonempty rfl
        rw [firstStart_cons hne, hstart, hnames, hn, hroot]
        exact (firstStart_cons hfirst_ne _).trans hfirst.start
  · rw [firstStart_cons hroot, firstStart_cons (push_ne_empty hroot outputDir), hstart]

theorem found_of_kept (h : (of projectRoot outputDir).Kept name target version) :
    same ((of projectRoot outputDir).pathFor ((of projectRoot outputDir).storage name target version).relativePath)
      ((of projectRoot outputDir).storage name target version).path = true := by
  have hf := isAbsolute_of_notMem h.notMem_fileName
  obtain ⟨names, hnames⟩ := h.inside
  change components (push projectRoot outputDir) = components projectRoot ++ names.map .normal at hnames
  have hsplit := hnames
  rw [components_eq, components_eq, List.append_assoc] at hsplit
  have hroot : ∀ c ∈ steps projectRoot ++ names.map .normal, c ≠ .root ∧ c ≠ .current := by
    intro c hc
    rcases List.mem_append.1 hc with hc | hc
    · exact mem_steps hc
    · obtain ⟨name, -, rfl⟩ := List.mem_map.1 hc
      simp
  obtain ⟨hstart, hsteps⟩ := start_append_inj (fun _ => mem_steps) hroot hsplit
  refine same_iff.2 ⟨start_found h.version hf hnames hstart, (steps_found_iff h.version hf).2 ?_⟩
  rw [hsteps, urlNames_of_inside hnames]

theorem file_of_kept {l : Layout} (h : l.Kept name target version) : ∃ file,
    components (l.storage name target version).path = components (l.storage name target version).dir ++ [.normal file] :=
  ⟨fileName name target, by rw [path_eq, (isName_fileName h.notMem_fileName).components_push]⟩

theorem kept_of_agrees (hroot : projectRoot ≠ "") (hname : steps name ≠ [])
    (h : (of projectRoot outputDir).Agrees ((of projectRoot outputDir).storage name target version)) :
    (of projectRoot outputDir).Kept name target version := by
  have hslash := (parentDir_relativePath name target version _).1 h.directory
  have hfile := isAbsolute_of_notMem hslash
  obtain ⟨hstart, hsteps⟩ := same_iff.1 h.found
  have hv : isAbsolute version = false := by
    rw [Bool.eq_false_iff]
    intro hv
    have hdir : ((of projectRoot outputDir).storage name target version).dir = version := by
      change push _ version = version
      rw [push, if_pos hv]
    rw [steps_pathFor, steps_relativePath, path_eq, hdir, steps_push hfile] at hsteps
    -- The version stands for the whole directory, which leaves no steps for the name.
    have hlength := congrArg List.length hsteps
    simp only [List.length_append] at hlength
    exact hname (List.length_eq_zero_iff.1 (by omega))
  refine ⟨⟨urlNames projectRoot outputDir, ?_⟩, hv, fun hnone hmem => hslash (slash_mem_fileName.2 ⟨hnone, hmem⟩)⟩
  change components (push projectRoot outputDir) = components projectRoot ++ _
  rw [start_pathFor, start_path _ _ _ hv hfile] at hstart
  change firstStart (projectRoot :: _) = firstStart (push projectRoot outputDir :: _) at hstart
  rw [firstStart_cons hroot, firstStart_cons (push_ne_empty hroot outputDir)] at hstart
  rw [components_eq, components_eq, (steps_found_iff hv hfile).1 hsteps, hstart, List.append_assoc]

/-- The places of a module agree where it is kept in the project.  They agree nowhere else, unless the project or the
name of the package stands for no directory. -/
theorem storage_agrees (projectRoot outputDir name : String) (target : Option String) (version : String) :
    let l := of projectRoot outputDir
    let s := l.storage name target version
    (l.Kept name target version → l.Agrees s) ∧
      (projectRoot ≠ "" → steps name ≠ [] → l.Agrees s → l.Kept name target version) :=
  ⟨fun h => ⟨found_of_kept h, file_of_kept h, (parentDir_relativePath _ _ _ _).2 h.notMem_fileName⟩, kept_of_agrees⟩

theorem storage_agrees_inScope :
    let l := of "/project" "vendor/js"
    "/project" ≠ "" ∧ steps "@scope/pkg" ≠ [] ∧ l.Kept "@scope/pkg" (some "dist/index.js") "2.0.0" ∧
      l.Agrees (l.storage "@scope/pkg" (some "dist/index.js") "2.0.0") := by
  have hkept : (of "/project" "vendor/js").Kept "@scope/pkg" (some "dist/index.js") "2.0.0" :=
    ⟨⟨["vendor", "js"], by decide +kernel⟩, by decide +kernel, by decide +kernel⟩
  have hagrees := (storage_agrees "/project" "vendor/js" "@scope/pkg" (some "dist/index.js") "2.0.0").1 hkept
  exact ⟨by decide +kernel, by decide +kernel, hkept, hagrees⟩

/-- The places do not agree in a directory outside of the project, nor for a target that ends in no name. -/
theorem storage_disagrees :
    let outside := of "/project" "/var/www/modules"
    let above := of "/project" "../vendor"
    let inside := of "/project" "web_modules"
    ¬ outside.Agrees (outside.storage "left-pad" none "1.3.0") ∧
      ¬ above.Agrees (above.storage "left-pad" none "1.3.0") ∧
      ¬ inside.Agrees (inside.storage "left-pad" (some "a/..") "1.3.0") := by
  refine ⟨fun h => ?_, fun h => ?_, fun h => ?_⟩
  · exact absurd h.found (by decide +kernel)
  · exact absurd h.found (by decide +kernel)
  · exact absurd h.directory (by decide +kernel)

end Layout

end WebModules
