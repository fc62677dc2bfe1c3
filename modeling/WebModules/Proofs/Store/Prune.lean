import WebModules.Proofs.FileTree.Listed
import WebModules.Proofs.FileTree.Without
import WebModules.Store

/-!
What is removed with a file of the store.  It is what is told about it and nothing else: the directories above
the file, up to the root, as long as each is left empty by the removal of the ones before it.  A root that is
reached through such a directory cannot be reached without it, so that nothing more is removed then.
-/

namespace WebModules.Store

open FileTree WebModules.Path

variable (s : Store) {t t' : FileTree} {gone : List (List String)} {root file directory : String}
  {names removed : List String}

/-! What is told is lost -/

theorem prune_loses (above : Nat) (t : FileTree) (directory : Option String) :
    Loses t (s.prune above t directory).2 [] ((s.prune above t directory).1.map place) := by
  fun_induction prune s above t directory with
  | case1 t | case2 t | case3 t | case4 t => exact .refl _
  | case5 above t directory hinside t' hmade removed t'' hrest ih =>
      rw [hrest] at ih
      exact (removeDirectory_eq_ok hmade).trans ih

theorem removeFile_eq_ok (h : s.removeFile file t = (.ok removed, t')) :
    Loses t t' [place file] (removed.map place) ∧ t'.find file = .error .notFound := by
  rw [removeFile] at h
  cases hr : t.removeFile file with
  | ok without =>
      obtain ⟨hfile, hgone⟩ := FileTree.removeFile_eq_ok hr
      have hpruned := s.prune_loses file.length without (Path.parent? file)
      simp only [hr] at h
      obtain ⟨hremoved, rfl⟩ := Prod.mk.inj h
      cases hremoved
      exact ⟨hfile.trans hpruned, hpruned.find_notFound hgone⟩
  | error e =>
      have hpruned := s.prune_loses file.length t (Path.parent? file)
      cases e with
      | notFound =>
          simp only [hr] at h
          obtain ⟨hremoved, rfl⟩ := Prod.mk.inj h
          cases hremoved
          exact ⟨hpruned.mono (by simp), hpruned.find_notFound (removeFile_eq_notFound hr)⟩
      | alreadyExists | notADirectory | isADirectory | directoryNotEmpty =>
          simp only [hr] at h
          cases (Prod.mk.inj h).1

/-! Directories that are left empty -/

/-- A directory that nothing is in but what is gone. -/
structure Emptied (t : FileTree) (gone : List (List String)) (path : String) : Prop where
  directory : t.isDirectory path = true
  rest : ∀ name ∈ t.children (place path), place path ++ [name] ∈ gone

/-- Directories of which each is left empty when the ones before it are gone, too. -/
def Empties (t : FileTree) : List (List String) → List String → Prop
  | _, [] => True
  | gone, path :: paths => Emptied t gone path ∧ Empties t (place path :: gone) paths

/-- No path but the last one is one that a root is reached through. -/
def Aside (root : String) (paths : List String) : Prop := ∀ path ∈ paths.dropLast, ¬ Passes root (place path)

/-- The longest front of some paths with a property. -/
structure Longest (property : List String → Prop) (paths found : List String) : Prop where
  front : found <+: paths
  holds : property found
  longest : ∀ other, other <+: paths → property other → other <+: found

/-- What is gone is deeper than a directory and not on the way to the root. -/
structure Deeper (root : String) (gone : List (List String)) (directory : String) : Prop where
  length : ∀ names ∈ gone, (place directory).length < names.length
  clear : ∀ names ∈ gone, ¬ Passes root names

namespace Deeper

theorem nil_notMem (h : Deeper root gone directory) : [] ∉ gone := fun hmem => absurd (h.length [] hmem) (by simp)

theorem not_passes (h : Deeper root gone directory) (hb : Below root names directory) :
    ∀ place ∈ gone, ¬ Passes directory place := by
  intro names hmem hp
  rcases hp.of_below hb with hroot | hfront
  · exact h.clear names hmem hroot
  · exact absurd (h.length names hmem) (Nat.not_lt.2 hfront.length_le)

end Deeper

theorem removeDirectory_iff {last : String} (hb : Below root (names ++ [last]) directory) (ht : Tidy directory)
    (hgone : Deeper root gone directory) : (t.without gone).removeDirectory directory = .ok t' ↔
      Emptied t gone directory ∧ t' = t.without (place directory :: gone) := by
  have hplain : Plain directory (steps root ++ names.map .normal) last :=
    plain_of_tidy ht (by rw [hb.start_steps.2, List.map_append, List.append_assoc]; rfl)
  rw [hplain.removeDirectory, isDirectory_without hgone.nil_notMem, children_without_eq_nil, erase_without]
  constructor
  · rintro ⟨⟨hdirectory, -⟩, hrest, rfl⟩
    exact ⟨⟨hdirectory, hrest⟩, rfl⟩
  · rintro ⟨⟨hdirectory, hrest⟩, rfl⟩
    exact ⟨⟨hdirectory, hgone.not_passes hb⟩, hrest, rfl⟩

/-- Nothing more is removed once the root is not reached any more. -/
theorem prune_of_passed (fuel : Nat) (hb : Below s.root names directory) (hnil : [] ∉ gone) {passed : List String}
    (hmem : passed ∈ gone) (hp : Passes s.root passed) :
    s.prune fuel (t.without gone) (some directory) = ([], t.without gone) := by
  cases fuel with
  | zero => rfl
  | succ fuel =>
      have hlost : (t.without gone).isDirectory directory ≠ true := by
        rw [ne_eq, isDirectory_without hnil, not_and, not_forall]
        exact fun _ => ⟨passed, fun hnot => hnot hmem (hp.to_below hb)⟩
      rw [prune]
      split
      · rfl
      · split
        · rfl
        · rename_i left hremoved
          rw [FileTree.removeDirectory] at hremoved
          obtain ⟨found, hfound, -⟩ := bind_eq_ok hremoved
          rw [isDirectory, hfound] at hlost
          exact absurd rfl hlost

/-! The longest chain -/

theorem aside_cons {path : String} {paths : List String} :
    Aside root (path :: paths) ↔ (paths ≠ [] → ¬ Passes root (place path)) ∧ Aside root paths := by
  cases paths with
  | nil => simp [Aside]
  | cons next paths => simp [Aside, List.dropLast_cons_cons]

/-- Directories that can be removed one after the other. -/
def Prunable (t : FileTree) (root : String) (gone : List (List String)) (paths : List String) : Prop :=
  Empties t gone paths ∧ Aside root paths

theorem prunable_nil : Prunable t root gone [] := ⟨trivial, by simp [Aside]⟩

theorem prunable_cons {path : String} {paths : List String} : Prunable t root gone (path :: paths) ↔
    Emptied t gone path ∧ (paths ≠ [] → ¬ Passes root (place path)) ∧ Prunable t root (place path :: gone) paths := by
  rw [Prunable, Prunable, Empties, aside_cons]
  tauto

theorem longest_nil {paths : List String} (h : ∀ path ∈ paths.head?, ¬ Emptied t gone path) :
    Longest (Prunable t root gone) paths [] := by
  refine ⟨List.nil_prefix, prunable_nil, fun other hother hrun => ?_⟩
  cases other with
  | nil => exact List.prefix_refl _
  | cons path other =>
      obtain ⟨rest, rfl⟩ := hother
      exact absurd (prunable_cons.1 hrun).1 (h path rfl)

/-- The chain ends with a directory that the root is reached through. -/
theorem longest_singleton (h : Emptied t gone directory) (hp : Passes root (place directory)) (paths : List String) :
    Longest (Prunable t root gone) (directory :: paths) [directory] := by
  refine ⟨(List.prefix_cons_inj _).2 List.nil_prefix, prunable_cons.2 ⟨h, by simp, prunable_nil⟩,
    fun other hother hrun => ?_⟩
  cases other with
  | nil => exact List.nil_prefix
  | cons path other =>
      obtain ⟨rfl, -⟩ := List.cons_prefix_cons.1 hother
      obtain rfl : other = [] := by
        by_contra hne
        exact (prunable_cons.1 hrun).2.1 hne hp
      exact List.prefix_refl _

theorem Longest.cons {paths found : List String} (h : Longest (Prunable t root (place directory :: gone)) paths found)
    (he : Emptied t gone directory) (hp : ¬ Passes root (place directory)) :
    Longest (Prunable t root gone) (directory :: paths) (directory :: found) := by
  refine ⟨(List.prefix_cons_inj _).2 h.front, prunable_cons.2 ⟨he, fun _ => hp, h.holds⟩, fun other hother hrun => ?_⟩
  cases other with
  | nil => exact List.nil_prefix
  | cons path other =>
      obtain ⟨rfl, hrest⟩ := List.cons_prefix_cons.1 hother
      exact (List.prefix_cons_inj _).2 (h.longest other hrest (prunable_cons.1 hrun).2.2)

/-- Pruning removes the longest chain of directories that can be removed one after the other. -/
theorem prune_longest {fuel : Nat} (hb : Below s.root names directory) (ht : Tidy directory)
    (hfuel : names.length ≤ fuel) (hgone : Deeper s.root gone directory) :
    ∃ pruned, s.prune fuel (t.without gone) (some directory) = (pruned, t.without (pruned.map place ++ gone)) ∧
      Longest (Prunable t s.root gone) (upward names.length (some directory)) pruned := by
  induction names using List.reverseRecOn generalizing fuel gone directory with
  | nil =>
      refine ⟨[], ?_, longest_nil (by simp [upward])⟩
      cases fuel with
      | zero => rfl
      | succ fuel => simp [prune, hb.same_eq]
  | append_singleton names last ih =>
      rw [List.length_append, List.length_singleton] at hfuel ⊢
      obtain ⟨fuel, rfl⟩ : ∃ more, fuel = more + 1 := ⟨fuel - 1, by omega⟩
      obtain ⟨parent, hparent, hbelow⟩ := hb.exists_parent
      have hinside : (same directory s.root || !startsWith s.root directory) = false := by
        rw [hb.same_eq, hb.startsWith_eq]
        simp
      rw [prune, hinside, hparent, upward, hparent]
      cases hremoved : (t.without gone).removeDirectory directory with
      | error e =>
          refine ⟨[], rfl, longest_nil fun path hpath => ?_⟩
          obtain rfl := Option.some.inj hpath
          intro hemptied
          have hcan := (removeDirectory_iff hb ht hgone).2 ⟨hemptied, rfl⟩
          rw [hremoved] at hcan
          cases hcan
      | ok left =>
          obtain ⟨hemptied, rfl⟩ := (removeDirectory_iff hb ht hgone).1 hremoved
          simp only [Bool.false_eq_true, if_false]
          by_cases hpass : Passes s.root (place directory)
          · -- the paths above go through the root, and so through the directory that is gone
            have hnil : [] ∉ place directory :: gone := by
              rw [List.mem_cons, not_or, hb.place_eq]
              exact ⟨by simp, hgone.nil_notMem⟩
            rw [s.prune_of_passed fuel hbelow hnil List.mem_cons_self hpass]
            exact ⟨[directory], rfl, longest_singleton hemptied hpass _⟩
          · have hdeeper : Deeper s.root (place directory :: gone) parent := by
              have hlength : (place parent).length < (place directory).length := by
                simp [hbelow.place_eq, hb.place_eq]
              exact ⟨List.forall_mem_cons.2 ⟨hlength, fun names hmem => hlength.trans (hgone.length names hmem)⟩,
                List.forall_mem_cons.2 ⟨hpass, hgone.clear⟩⟩
            obtain ⟨pruned, hpruned, hlongest⟩ := ih hbelow (tidy_parent hparent) (Nat.le_of_succ_le_succ hfuel) hdeeper
            rw [hpruned]
            refine ⟨directory :: pruned, ?_, hlongest.cons hemptied hpass⟩
            rw [without_perm List.perm_middle, List.map_cons, List.cons_append]

/-! Files that are removed -/

theorem Empties.front {paths more : List String} (h : Empties t gone (paths ++ more)) : Empties t gone paths := by
  induction paths generalizing gone with
  | nil => trivial
  | cons path paths ih => exact ⟨h.1, ih h.2⟩

/-- Where the root is reached through none of them, these are all directories that are left empty. -/
theorem Longest.of_aside {paths found : List String} (h : Longest (Prunable t root gone) paths found)
    (hp : ∀ path ∈ found, ¬ Passes root (place path)) : Longest (Empties t gone) paths found := by
  refine ⟨h.front, h.holds.1, fun other hother hrun => ?_⟩
  rcases List.prefix_or_prefix_of_prefix hother h.front with hless | ⟨more, rfl⟩
  · exact hless
  · cases more with
    | nil => rw [List.append_nil]
    | cons next more =>
        -- One more directory would do as well, since the root is reached through none before it.
        rw [List.append_cons] at hother hrun
        have haside : Aside root (found ++ [next]) := by
          rw [Aside, List.dropLast_concat]
          exact hp
        have hfront := h.longest _ ((List.prefix_append _ more).trans hother) ⟨hrun.front, haside⟩
        exact absurd hfront.length_le (by simp)

/-- What is done with a file that is removed, and with the directories above it. -/
structure Removed (s : Store) (file : String) (above : List String) (t t' : FileTree) (own pruned : List String) :
    Prop where
  /-- The file itself, if it is there. -/
  itself : (∃ text, t.find file = .ok (place file, .file text)) ∧ own = [file] ∨
    t.find file = .error .notFound ∧ own = []
  chain : Longest (Prunable t s.root (own.map place)) above pruned
  /-- These are all directories that are left empty, unless the root is reached through them. -/
  emptied : (∀ path ∈ pruned, ¬ Passes s.root (place path)) → Longest (Empties t (own.map place)) above pruned
  /-- Nothing else changes. -/
  tree : t' = t.without ((own ++ pruned).map place)
  gone : t'.find file = .error .notFound
  root : t'.node? (place s.root) = t.node? (place s.root)
  stays : ∀ names, t.node? names = some .directory → t'.children names ≠ [] → t'.node? names = some .directory

variable {own pruned : List String} {last : String}

theorem removed_of_longest {parent : String} (hfile : Below s.root (names ++ [last]) file)
    (hparent : parent? file = some parent) (hbelow : Below s.root names parent)
    (hown : (∃ text, t.find file = .ok (place file, .file text)) ∧ own = [file] ∨
      t.find file = .error .notFound ∧ own = [])
    (hpruned : Longest (Prunable t s.root (own.map place)) (upward names.length (some parent)) pruned)
    (h : s.removeFile file t = (.ok (own ++ pruned), t.without ((own ++ pruned).map place))) :
    Removed s file (upward names.length (parent? file)) t (t.without ((own ++ pruned).map place)) own pruned := by
  obtain ⟨hloses, hgone⟩ := s.removeFile_eq_ok h
  rw [hparent]
  refine ⟨hown, hpruned, hpruned.of_aside, rfl, hgone, hloses.stays _ ?_, fun names hdirectory hleft => ?_⟩
  · rw [List.mem_map]
    rintro ⟨path, hpath, hplace⟩
    rcases List.mem_append.1 hpath with hpath | hpath
    · rcases hown with ⟨-, rfl⟩ | ⟨-, rfl⟩
      · rw [List.mem_singleton.1 hpath, hfile.place_eq] at hplace
        simp at hplace
      · cases hpath
    · obtain ⟨front, hne, -, habove⟩ := hbelow.of_mem_upward (hpruned.front.mem hpath)
      rw [habove] at hplace
      exact hne (List.append_right_eq_self.1 hplace)
  · rw [hloses.stays, hdirectory]
    intro hmem
    rcases hloses.kind names hmem with ⟨-, text, htext⟩ | ⟨-, hnone⟩
    · rw [hdirectory] at htext
      cases htext
    · refine hleft (List.eq_nil_iff_forall_not_mem.2 fun name hname => ?_)
      exact mem_children_iff.1 hname (hnone name)

/-- With a file the longest chain of directories above it is removed, up to the root, that are left empty by this, as
far as the root is not reached through them.  Where the file cannot be removed, nothing changes. -/
theorem removeFile_prunes (hfile : Below s.root (names ++ [last]) file) (t : FileTree) :
    (∃ e, t.removeFile file = .error e ∧ e ≠ .notFound ∧ s.removeFile file t = (.error (.file file e), t)) ∨
      ∃ own pruned t', s.removeFile file t = (.ok (own ++ pruned), t') ∧
        Removed s file (upward names.length (parent? file)) t t' own pruned := by
  obtain ⟨parent, hparent, hbelow⟩ := hfile.exists_parent
  have hfuel : names.length ≤ file.length := by
    have hlength := hfile.length_le
    rw [List.length_append] at hlength
    exact (Nat.le_add_right _ _).trans hlength
  have htidy := tidy_parent hparent
  cases hr : t.removeFile file with
  | ok left =>
      obtain ⟨⟨text, hfound⟩, rfl⟩ := removeFile_iff.1 hr
      have hdeeper : Deeper s.root [place file] parent := by
        refine ⟨List.forall_mem_singleton.2 ?_, List.forall_mem_singleton.2 (not_passes_file hfile hfound)⟩
        simp [hbelow.place_eq, hfile.place_eq]
      obtain ⟨pruned, hpruned, hlongest⟩ := s.prune_longest (t := t) hbelow htidy hfuel hdeeper
      rw [without_perm List.perm_append_comm] at hpruned
      have hresult : s.removeFile file t = (.ok ([file] ++ pruned), t.without (([file] ++ pruned).map place)) := by
        have herased : t.erase (place file) = t.without [place file] := by rw [← erase_without, without_nil]
        rw [herased] at hr
        simp only [removeFile, hr, hparent, hpruned]
        rfl
      exact .inr ⟨[file], pruned, _, hresult,
        s.removed_of_longest hfile hparent hbelow (.inl ⟨⟨text, hfound⟩, rfl⟩) hlongest hresult⟩
  | error e =>
      by_cases he : e = .notFound
      · subst he
        have hdeeper : Deeper s.root [] parent := ⟨by simp, by simp⟩
        obtain ⟨pruned, hpruned, hlongest⟩ := s.prune_longest (t := t) hbelow htidy hfuel hdeeper
        rw [List.append_nil, without_nil] at hpruned
        have hresult : s.removeFile file t = (.ok ([] ++ pruned), t.without (([] ++ pruned).map place)) := by
          simp only [removeFile, hr, hparent, hpruned, List.nil_append]
        exact .inr ⟨[], pruned, _, hresult, s.removed_of_longest hfile hparent hbelow
          (.inr ⟨removeFile_eq_notFound hr, rfl⟩) hlongest hresult⟩
      · refine .inl ⟨e, rfl, he, ?_⟩
        cases e with
        | notFound => exact absurd rfl he
        | alreadyExists | notADirectory | isADirectory | directoryNotEmpty => simp only [removeFile, hr]

/-- Two versions of a package in a scope, one of which is in a directory of its own. -/
def scopedStore : FileTree :=
  ⟨[(["store"], .directory), (["store", "@s"], .directory), (["store", "@s", "p"], .directory),
    (["store", "@s", "p", "1"], .directory), (["store", "@s", "p", "1", "lib"], .directory),
    (["store", "@s", "p", "1", "lib", "p.js"], .file ""), (["store", "@s", "p", "2"], .directory),
    (["store", "@s", "p", "2", "p.js"], .file "")]⟩

theorem removeFile_prunes_version :
    let s : Store := ⟨"/store"⟩
    let file := "/store/@s/p/1/lib/p.js"
    Below s.root (["@s", "p", "1", "lib"] ++ ["p.js"]) file ∧
      ∃ t', s.removeFile file scopedStore = (.ok [file, "/store/@s/p/1/lib", "/store/@s/p/1"], t') ∧
        Removed s file ["/store/@s/p/1/lib", "/store/@s/p/1", "/store/@s/p", "/store/@s"] scopedStore t' [file]
          ["/store/@s/p/1/lib", "/store/@s/p/1"] ∧
        t'.node? ["store", "@s", "p", "2", "p.js"] = some (.file "") := by
  intro s file
  have hbelow : Below s.root (["@s", "p", "1", "lib"] ++ ["p.js"]) file := by decide +kernel
  have habove : upward 4 (parent? file) = ["/store/@s/p/1/lib", "/store/@s/p/1", "/store/@s/p", "/store/@s"] := by
    decide +kernel
  have htold : (s.removeFile file scopedStore).1 = .ok [file, "/store/@s/p/1/lib", "/store/@s/p/1"] := by decide +kernel
  have hfound : ∃ text, scopedStore.find file = .ok (place file, .file text) := ⟨"", by decide +kernel⟩
  rcases removeFile_prunes s hbelow scopedStore with ⟨e, -, -, heq⟩ | ⟨own, pruned, t', heq, hremoved⟩
  · rw [heq] at htold
    cases htold
  · rcases hremoved.itself with ⟨-, rfl⟩ | ⟨hnone, -⟩
    · rw [heq] at htold
      obtain rfl : pruned = ["/store/@s/p/1/lib", "/store/@s/p/1"] := (List.cons.inj (Except.ok.inj htold)).2
      refine ⟨hbelow, t', heq, habove ▸ hremoved, ?_⟩
      rw [hremoved.tree]
      decide +kernel
    · obtain ⟨text, htext⟩ := hfound
      rw [htext] at hnone
      cases hnone

/-- A directory that the root of the store is reached through is the last one to be removed. -/
theorem removeFile_unreached :
    let t : FileTree := ⟨[(["store"], .directory), (["store", "a"], .directory), (["store", "a", "1"], .directory),
      (["store", "a", "1", "a.js"], .file "")]⟩
    let s : Store := ⟨"/store/a/1/../.."⟩
    let file := "/store/a/1/../../a/1/a.js"
    t.isDirectory s.root = true ∧ Below s.root ["a", "1", "a.js"] file ∧
      (s.removeFile file t).1 = .ok [file, "/store/a/1/../../a/1"] ∧
      Empties t [place file] ["/store/a/1/../../a/1", "/store/a/1/../../a"] ∧
      (s.removeFile file t).2.node? ["store", "a"] = some .directory ∧
      (s.removeFile file t).2.children ["store", "a"] = [] := by
  refine ⟨by decide +kernel, by decide +kernel, by decide +kernel, ?_, by decide +kernel, by decide +kernel⟩
  exact ⟨⟨by decide +kernel, by decide +kernel⟩, ⟨by decide +kernel, by decide +kernel⟩, trivial⟩

end WebModules.Store
