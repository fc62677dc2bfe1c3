import Mathlib.Data.List.Basic
import WebModules.Package.Layout
import WebModules.Proofs.FileTree.Walk

/-!
The places of the modules of packages, as the paths to them tell.
-/

namespace WebModules

open FileTree

theorem FileTree.lastPart?_eq {path : String} {before cs : List Char} (h : path.toList = before ++ cs)
    (hn : cs ≠ []) (hs : '/' ∉ cs) : ∃ part, lastPart? path = some (String.ofList (part ++ cs)) := by
  obtain ⟨parts, part, hsplit⟩ := Text.split_append hs before
  refine ⟨part, ?_⟩
  rw [lastPart?, FileTree.parts, h, hsplit, List.filter_append]
  simp [hn]

theorem Path.push_eq (path other : String) :
    ∃ before, (push path other).toList = before ++ other.toList := by
  unfold push
  split
  · exact ⟨[], rfl⟩
  · split
    · exact ⟨path.toList, String.toList_append⟩
    · exact ⟨path.toList ++ ['/'], by simp⟩

namespace Layout

open WebModules.Path

/-- The name of the file of a module. -/
def fileName (name : String) (target : Option String) : String := stem (target.getD name) ++ ".js"

variable (l : Layout) (name : String) (target : Option String) (version : String)

theorem map_name_ne (part part' : List Char) :
    String.ofList (part ++ "import-map.json".toList) ≠ String.ofList (part' ++ ".js".toList) := by
  intro h
  have hlast := congrArg List.getLast? (String.ofList_inj.1 h)
  rw [List.getLast?_append_of_ne_nil _ (by decide), List.getLast?_append_of_ne_nil _ (by decide)] at hlast
  exact absurd hlast (by decide)

/-- No module is written where the import map is. -/
theorem lastPart?_ne : lastPart? l.importMapPath ≠ lastPart? (l.storage name target version).path := by
  obtain ⟨before, hmap⟩ := push_eq l.outputDir "import-map.json"
  obtain ⟨before', hmodule⟩ := push_eq (packageDir l.outputDir name version) (stem (target.getD name) ++ ".js")
  rw [String.toList_append, ← List.append_assoc] at hmodule
  obtain ⟨part, hpart⟩ := lastPart?_eq hmap (by decide) (by decide)
  obtain ⟨part', hpart'⟩ := lastPart?_eq hmodule (by decide) (by decide)
  rw [importMapPath, hpart, storage, hpart', ne_eq, Option.some.injEq]
  exact map_name_ne part part'

theorem plain_path : ∃ steps last, Plain (l.storage name target version).path steps last ∧
    endsInSlash (l.storage name target version).path = false := by
  obtain ⟨before, hpath⟩ := push_eq (packageDir l.outputDir name version) (stem (target.getD name) ++ ".js")
  rw [String.toList_append, ← List.append_assoc] at hpath
  obtain ⟨part, hpart⟩ := lastPart?_eq hpath (by decide) (by decide)
  have hlong : ∀ short : String, short.length ≤ 2 → String.ofList (part ++ ".js".toList) ≠ short := by
    rintro short hshort rfl
    rw [String.length_ofList, List.length_append] at hshort
    have hthree : ".js".toList.length = 3 := rfl
    omega
  obtain ⟨steps, hplain⟩ := plain_of_lastPart hpart ⟨hlong "." (by decide), hlong ".." (by decide)⟩
  refine ⟨steps, _, hplain, decide_eq_false ?_⟩
  change (push (packageDir l.outputDir name version) (stem (target.getD name) ++ ".js")).toList.getLast? ≠ some '/'
  rw [hpath, List.getLast?_append_of_ne_nil _ (by decide)]
  decide

/-- The file for a path of a URL is found by the steps of that path from the project. -/
theorem steps_pathFor (path : String) : steps (l.pathFor path) = steps l.projectRoot ++ steps path := by
  have hparts : (nameParts path).filter (fun part => !part.isEmpty) =
      ((Text.split '/' path.toList).filter fun part => !part.isEmpty).map String.ofList := by
    rw [nameParts, List.filter_map]
    congr 2
    funext part
    cases part with
    | nil => rfl
    | cons c part => simp
  rw [pathFor, hparts, steps_pushAll_parts, innerComponents_filter]
  · rfl
  · intro part hp
    exact Text.notMem_of_mem_split (List.mem_of_mem_filter hp)

theorem steps_packageDir {root name version : String} (hv : isAbsolute version = false) :
    steps (packageDir root name version) = steps root ++ (steps name ++ steps version) := by
  rw [packageDir, steps_push hv, nameParts, steps_pushAll_parts, List.append_assoc]
  · rfl
  · intro part hp
    exact Text.notMem_of_mem_split hp

/-- No path of a module stands for the file of the import map. -/
theorem place_ne : place (l.pathFor (l.storage name target version).relativePath) ≠ place l.importMapPath := by
  obtain ⟨before, hmap⟩ := push_eq l.outputDir "import-map.json"
  obtain ⟨before', hmodule⟩ : ∃ before', (l.storage name target version).relativePath.toList =
      before' ++ ".js".toList := by
    rw [storage, ← String.append_assoc, String.toList_append]
    exact ⟨_, rfl⟩
  obtain ⟨part, hpart⟩ := getLast?_steps hmap (by decide) (by decide)
  obtain ⟨part', hpart'⟩ := getLast?_steps hmodule (by decide) (by decide)
  have hown : (steps (l.pathFor (l.storage name target version).relativePath)).getLast? =
      some (.normal (String.ofList (part' ++ ".js".toList))) := by
    rw [steps_pathFor, List.getLast?_append_of_ne_nil, hpart']
    intro hnil
    rw [hnil] at hpart'
    cases hpart'
  intro h
  have hlast := congrArg List.getLast? h
  rw [getLast?_place hown, importMapPath, getLast?_place hpart] at hlast
  exact map_name_ne part part' (Option.some.inj hlast).symm

/-! Names of packages -/

theorem nameParts_of_isName {name : String} (h : IsName name) : nameParts name = [name] := by
  rw [nameParts, Text.split_of_notMem h.slash, List.map_singleton, String.ofList_toList]

theorem nameParts_scoped {scope package : String} (hs : IsName scope) (hp : IsName package) :
    nameParts (scope ++ "/" ++ package) = [scope, package] := by
  have hlist : (scope ++ "/" ++ package).toList = scope.toList ++ '/' :: package.toList := by simp
  rw [nameParts, hlist, Text.split_append_cons, Text.split_of_notMem hs.slash, Text.split_of_notMem hp.slash]
  simp

theorem packageDir_eq (root name version : String) :
    packageDir root name version = pushAll root (nameParts name ++ [version]) := by
  rw [packageDir, pushAll, pushAll, List.foldl_append]
  rfl

end Layout

end WebModules
