import Mathlib.Data.List.Sort
import Mathlib.Data.Prod.Lex
import Mathlib.Data.String.Basic
import WebModules.Proofs.Package.Layout
import WebModules.Proofs.Store.Versions

/-!
What is listed of a store: each version of a package that has a module, once, in order, and under the path
that the name and the version of the package have in the store.
-/

namespace WebModules

open FileTree WebModules.Path

/-- What packages are listed by: the name, and then the version. -/
def StoredPackage.key (p : StoredPackage) : String ×ₗ String := toLex (p.name, p.version)

namespace Store

/-- A directory has an entry that is a module and no directory. -/
def HasModule (t : FileTree) (path : String) : Prop :=
  ∃ names, t.findDirectory path = .ok names ∧
    ∃ entry ∈ t.children names, extension? entry = some "js" ∧ t.node? (names ++ [entry]) ≠ some .directory

/-- A package in a directory of its own, or in one for its scope. -/
def IsPackageName (name : String) : Prop :=
  IsName name ∨ ∃ scope package, IsName scope ∧ scope.toList.head? = some '@' ∧ IsName package ∧
    name = scope ++ "/" ++ package

variable (s : Store) {t : FileTree} {directory : String} {names inner : List String} {levels : Nat}
  {p : StoredPackage}

/-! What a directory stands for -/

theorem isModule_push {entry : String} (h : IsName entry) (directory : String) :
    isModule (push directory entry) = true ↔ extension? entry = some "js" := by
  rw [isModule, fileName?, h.components_push, List.getLast?_concat, beq_iff_eq]
  rfl

theorem storedIn?_pushAll (h : ∀ name ∈ inner, IsName name) : s.storedIn? (pushAll s.root inner) =
    (packageOf? inner).map fun found => ⟨found.1, found.2, pushAll s.root inner⟩ := by
  have htexts : (inner.map Component.normal).map Component.text = inner := by
    rw [List.map_map]
    exact List.map_id' inner
  have hbelow : componentsAfter? s.root (pushAll s.root inner) = some (inner.map .normal) := by
    rw [componentsAfter?, components_pushAll h, strip_append]
  rw [storedIn?, hbelow]
  simp only [Option.bind_eq_bind, Option.bind_some, htexts]
  cases packageOf? inner <;> rfl

theorem path_of_storedIn? (h : s.storedIn? directory = some p) : p.path = directory := by
  rw [storedIn?] at h
  obtain ⟨below, -, h⟩ := Option.bind_eq_some_iff.1 h
  obtain ⟨found, -, h⟩ := Option.bind_eq_some_iff.1 h
  cases h
  rfl

/-- Below the root, the names of the directory of a package are those that its name and its version spell. -/
theorem packageOf?_eq_some {name version : String} (h : ∀ name ∈ inner, IsName name) :
    packageOf? inner = some (name, version) ↔
      IsPackageName name ∧ IsName version ∧ inner = Layout.nameParts name ++ [version] := by
  constructor
  · intro hfound
    rw [packageOf?.eq_def] at hfound
    split at hfound
    · rename_i name' version'
      cases hfound
      obtain ⟨hname, hversion, -⟩ : IsName name ∧ IsName version ∧ True := by simpa using h
      exact ⟨.inl hname, hversion, by rw [Layout.nameParts_of_isName hname]; rfl⟩
    · rename_i scope package version'
      split at hfound
      · rename_i hat
        cases hfound
        obtain ⟨hscope, hpackage, hversion⟩ : IsName scope ∧ IsName package ∧ IsName version := by simpa using h
        exact ⟨.inr ⟨scope, package, hscope, hat, hpackage, rfl⟩, hversion,
          by rw [Layout.nameParts_scoped hscope hpackage]; rfl⟩
      · cases hfound
    · cases hfound
  · rintro ⟨hname | ⟨scope, package, hscope, hat, hpackage, rfl⟩, -, rfl⟩
    · rw [Layout.nameParts_of_isName hname]
      rfl
    · rw [Layout.nameParts_scoped hscope hpackage]
      exact if_pos hat

/-! The traversal -/

/-- A directory gives what it stands for if it has a module, and what the directories in it give. -/
theorem collectPackages_succ (ht : t.Proper) (hd : t.findDirectory directory = .ok names) (levels : Nat) :
    ∃ own : Option StoredPackage, (∀ p, own = some p ↔ HasModule t directory ∧ s.storedIn? directory = some p) ∧
      s.collectPackages t (levels + 1) directory =
        own.toList ++ (listed t names).flatMap fun name => s.collectPackages t levels (push directory name) := by
  have hread : t.readDirectory directory = .ok (t.children names) := by rw [readDirectory, hd]; rfl
  have hdirectory {entry : String} (he : entry ∈ t.children names) :
      t.isDirectory (push directory entry) = true ↔ t.node? (names ++ [entry]) = some .directory :=
    isDirectory_push (ht.named names entry he) hd
  simp only [collectPackages, hread, List.partition_eq_filter_filter, List.filter_map, List.flatMap_map, List.any_map]
  refine ⟨_, fun p => ?_, congrArg₂ _ rfl (congrArg _ (List.filter_congr fun entry he => ?_))⟩
  · have hmodule : ((t.children names).filter ((not ∘ t.isDirectory) ∘ push directory)).any
        (isModule ∘ push directory) = true ↔ HasModule t directory := by
      simp only [HasModule, hd, Except.ok.injEq, exists_eq_left', List.any_eq_true, List.mem_filter,
        Function.comp_apply, Bool.not_eq_true', ← Bool.not_eq_true]
      refine exists_congr fun entry => ?_
      rw [and_assoc]
      refine and_congr_right fun he => ?_
      rw [hdirectory he, isModule_push (ht.named names entry he), and_comm]
    rw [Option.ite_none_right_eq_some, hmodule]
  · rw [Function.comp_apply, Bool.eq_iff_iff, hdirectory he, beq_iff_eq]

theorem mem_collectPackages_succ (ht : t.Proper) (hd : t.findDirectory directory = .ok names) :
    p ∈ s.collectPackages t (levels + 1) directory ↔ HasModule t directory ∧ s.storedIn? directory = some p ∨
      ∃ name, t.node? (names ++ [name]) = some .directory ∧ p ∈ s.collectPackages t levels (push directory name) := by
  obtain ⟨own, hown, hcollect⟩ := s.collectPackages_succ ht hd levels
  rw [hcollect, List.mem_append, Option.mem_toList, hown, List.mem_flatMap]
  simp only [mem_listed_iff]

/-- What a directory gives is what the directories below it stand for that have a module. -/
theorem mem_collectPackages (ht : t.Proper) : p ∈ s.collectPackages t levels directory ↔
    ∃ inner, inner.length < levels ∧ (∀ name ∈ inner, IsName name) ∧ HasModule t (pushAll directory inner) ∧
      s.storedIn? (pushAll directory inner) = some p := by
  induction levels generalizing directory with
  | zero => simp [collectPackages]
  | succ levels ih =>
      cases hd : t.findDirectory directory with
      | error e =>
          have hread : t.readDirectory directory = .error e := by rw [readDirectory, hd]; rfl
          refine iff_of_false (by simp [collectPackages, hread]) ?_
          rintro ⟨inner, -, hnames, ⟨found, hfound, -⟩, -⟩
          obtain ⟨above, habove, -⟩ := exists_findDirectory hnames hfound
          rw [hd] at habove
          cases habove
      | ok names =>
          rw [s.mem_collectPackages_succ ht hd]
          constructor
          · rintro (⟨hmodule, hstored⟩ | ⟨name, hnode, hmem⟩)
            · exact ⟨[], Nat.zero_lt_succ _, by simp, hmodule, hstored⟩
            · obtain ⟨inner, hlength, hnames, hmodule, hstored⟩ := ih.1 hmem
              have hname : IsName name := ht.named names name (mem_children_iff.2 (by simp [hnode]))
              exact ⟨name :: inner, Nat.succ_lt_succ hlength, List.forall_mem_cons.2 ⟨hname, hnames⟩, hmodule, hstored⟩
          · rintro ⟨inner, hlength, hnames, hmodule, hstored⟩
            cases inner with
            | nil => exact .inl ⟨hmodule, hstored⟩
            | cons name inner =>
                obtain ⟨hname, hinner⟩ := List.forall_mem_cons.1 hnames
                obtain ⟨found, hfound, -⟩ := id hmodule
                obtain ⟨middle, hmiddle, -⟩ := exists_findDirectory hinner hfound
                obtain ⟨above, habove, hnode, -⟩ := (findDirectory_push hname).1 hmiddle
                obtain rfl := Except.ok.inj (hd.symm.trans habove)
                exact .inr ⟨name, hnode, ih.2 ⟨inner, Nat.lt_of_succ_lt_succ hlength, hinner, hmodule, hstored⟩⟩

/-- No directory lies deeper than the levels that are looked at. -/
theorem mem_listPackages (ht : t.Proper) : p ∈ s.listPackages t ↔
    ∃ inner, (∀ name ∈ inner, IsName name) ∧ HasModule t (pushAll s.root inner) ∧
      s.storedIn? (pushAll s.root inner) = some p := by
  rw [listPackages, (List.mergeSort_perm _ _).mem_iff, s.mem_collectPackages ht]
  refine exists_congr fun inner => ⟨And.right, fun h => ⟨Nat.lt_succ_of_le ?_, h⟩⟩
  obtain ⟨hnames, ⟨found, hfound, -⟩, -⟩ := h
  obtain ⟨above, -, rfl⟩ := exists_findDirectory hnames hfound
  have hnode := (find_eq_ok (findDirectory_eq_ok hfound)).2
  have hlength : (above ++ inner).length ≤ t.height := length_le_height (by simp [hnode])
  rw [List.length_append] at hlength
  omega

theorem mem_listPackages_iff (ht : t.Proper) {name version path : String} :
    ⟨name, version, path⟩ ∈ s.listPackages t ↔
      (IsPackageName name ∧ IsName version) ∧ HasModule t (s.packageDir name version) ∧
        path = s.packageDir name version := by
  have hdir : s.packageDir name version = pushAll s.root (Layout.nameParts name ++ [version]) :=
    Layout.packageDir_eq s.root name version
  rw [s.mem_listPackages ht]
  constructor
  · rintro ⟨inner, hinner, hmodule, hstored⟩
    rw [s.storedIn?_pushAll hinner, Option.map_eq_some_iff] at hstored
    obtain ⟨⟨name', version'⟩, hfound, hstored⟩ := hstored
    obtain ⟨rfl, rfl, rfl⟩ := StoredPackage.mk.inj hstored
    obtain ⟨hname, hversion, rfl⟩ := (packageOf?_eq_some hinner).1 hfound
    exact ⟨⟨hname, hversion⟩, hdir ▸ hmodule, hdir.symm⟩
  · rintro ⟨⟨hname, hversion⟩, hmodule, rfl⟩
    have hinner : ∀ part ∈ Layout.nameParts name ++ [version], IsName part := by
      refine List.forall_mem_append.2 ⟨?_, List.forall_mem_singleton.2 hversion⟩
      rcases hname with hname | ⟨scope, package, hscope, -, hpackage, rfl⟩
      · rw [Layout.nameParts_of_isName hname]
        exact List.forall_mem_singleton.2 hname
      · rw [Layout.nameParts_scoped hscope hpackage]
        exact List.forall_mem_cons.2 ⟨hscope, List.forall_mem_singleton.2 hpackage⟩
    refine ⟨_, hinner, hdir ▸ hmodule, ?_⟩
    rw [s.storedIn?_pushAll hinner, (packageOf?_eq_some hinner).2 ⟨hname, hversion, rfl⟩, hdir]
    rfl

theorem nodup_collectPackages (ht : t.Proper) : (s.collectPackages t levels directory).Nodup := by
  induction levels generalizing directory with
  | zero => exact .nil
  | succ levels ih =>
      cases hd : t.findDirectory directory with
      | error e =>
          have hread : t.readDirectory directory = .error e := by rw [readDirectory, hd]; rfl
          simp [collectPackages, hread]
      | ok names =>
          have hpath {name : String} {p : StoredPackage} (hname : name ∈ listed t names)
              (hp : p ∈ s.collectPackages t levels (push directory name)) :
              IsName name ∧ ∃ inner, (∀ name ∈ inner, IsName name) ∧ p.path = pushAll directory (name :: inner) := by
            obtain ⟨inner, -, hinner, -, hstored⟩ := (s.mem_collectPackages ht).1 hp
            exact ⟨ht.named names name (List.mem_of_mem_filter hname), inner, hinner, s.path_of_storedIn? hstored⟩
          obtain ⟨own, hown, hcollect⟩ := s.collectPackages_succ ht hd levels
          rw [hcollect, List.nodup_append]
          refine ⟨?_, List.nodup_flatMap.2 ⟨fun name _ => ih, ?_⟩, ?_⟩
          · cases own <;> simp
          · have hnodup : (listed t names).Nodup := (ht.once names).filter _
            refine hnodup.pairwise_of_forall_ne fun name hname name' hname' hne p hp hp' => hne ?_
            obtain ⟨hn, inner, hinner, hp⟩ := hpath hname hp
            obtain ⟨hn', inner', hinner', hp'⟩ := hpath hname' hp'
            cases pushAll_inj (List.forall_mem_cons.2 ⟨hn, hinner⟩) (List.forall_mem_cons.2 ⟨hn', hinner'⟩)
              (hp.symm.trans hp')
            rfl
          · rintro p hp q hq rfl
            obtain ⟨-, hstored⟩ := (hown p).1 (Option.mem_toList.1 hp)
            obtain ⟨name, hname, hq⟩ := List.mem_flatMap.1 hq
            obtain ⟨hn, inner, hinner, hpath⟩ := hpath hname hq
            have hself : pushAll directory [] = pushAll directory (name :: inner) :=
              (s.path_of_storedIn? hstored).symm.trans hpath
            cases pushAll_inj (by simp) (List.forall_mem_cons.2 ⟨hn, hinner⟩) hself

/-! Sorting -/

theorem before_iff {p q : StoredPackage} : StoredPackage.before p q = true ↔ p.key ≤ q.key := by
  rw [StoredPackage.before, StoredPackage.key, StoredPackage.key, Prod.Lex.toLex_le_toLex]
  simp

theorem pairwise_listPackages (t : FileTree) : (s.listPackages t).Pairwise fun p q => p.key ≤ q.key := by
  have htrans (p q r : StoredPackage) (hpq : StoredPackage.before p q) (hqr : StoredPackage.before q r) :
      StoredPackage.before p r = true :=
    before_iff.2 ((before_iff.1 hpq).trans (before_iff.1 hqr))
  have htotal (p q : StoredPackage) : (StoredPackage.before p q || StoredPackage.before q p) = true := by
    simpa only [Bool.or_eq_true, before_iff] using le_total p.key q.key
  exact (List.pairwise_mergeSort htrans htotal _).imp before_iff.1

/-- A package and its version are listed once only, since they have one directory. -/
theorem eq_of_key {q : StoredPackage} (ht : t.Proper) (hp : p ∈ s.listPackages t) (hq : q ∈ s.listPackages t)
    (h : p.key = q.key) : p = q := by
  obtain ⟨name, version, path⟩ := p
  obtain ⟨name', version', path'⟩ := q
  obtain ⟨rfl, rfl⟩ := Prod.mk.inj (toLex_inj.1 h)
  rw [((s.mem_listPackages_iff ht).1 hp).2.2, ((s.mem_listPackages_iff ht).1 hq).2.2]

theorem hasModule_relisted {t' : FileTree} (h : t.Relisted t') {path : String} :
    HasModule t' path ↔ HasModule t path := by
  simp only [HasModule, h.findDirectory, (h.children _).mem_iff, h.node]

end Store

end WebModules
