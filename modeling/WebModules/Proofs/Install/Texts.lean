import WebModules.Proofs.Install.Scopes

/-!
Which text a file has that several modules lie in: that of the last one that was written there, of all
those that were not left out for having the path of another one.
-/

namespace WebModules

open FileTree Schedule

namespace Installer

variable {i : Installer} {n : Network} {files : List (MappedModule × String)} {t t' : FileTree}

theorem Writes.keeps (h : Writes files t t') :
    Keeps (fun names => ∃ f ∈ files, Path.place f.1.module.storage.path = names) t t' := by
  induction h with
  | nil t => exact .refl _ t
  | @cons m text files t t' t'' first rest ih =>
      have hfirst := (grows_writeModule m.module.storage text t).keeps
      rw [first] at hfirst
      apply (hfirst.mono ?_).trans (ih.mono ?_)
      · rintro names rfl
        exact ⟨_, List.mem_cons_self, rfl⟩
      · rintro names ⟨f, hf, hplace⟩
        exact ⟨f, List.mem_cons_of_mem _ hf, hplace⟩

theorem Writes.names {f : MappedModule × String} (h : Writes files t t') (hf : f ∈ files) :
    ∃ directory last, Names t' f.1.module.storage.path directory last := by
  induction h with
  | nil t => cases hf
  | cons first rest ih =>
      rcases List.mem_cons.1 hf with rfl | hf
      · obtain ⟨directory, last, hnames, -⟩ := read_eq_ok_iff.1 (writeModule_eq_ok first)
        exact ⟨directory, last, hnames.keep rest.keeps⟩
      · exact ih hf

theorem Writes.node {f : MappedModule × String} {names : List String} (h : Writes files t t')
    (hf : (files.filter fun f => Path.place f.1.module.storage.path = names).getLast? = some f) :
    t'.node? names = some (.file f.2) := by
  induction h with
  | nil t => cases hf
  | @cons m text files t t' t'' first rest ih =>
      by_cases hrest : files.filter (fun f => Path.place f.1.module.storage.path = names) = []
      · rw [List.filter_cons, hrest] at hf
        split at hf
        · rename_i hplace
          cases hf
          obtain ⟨directory, last, hnames, hnode⟩ := read_eq_ok_iff.1 (writeModule_eq_ok first)
          rw [hnames.place_eq, of_decide_eq_true hplace] at hnode
          apply rest.keeps.file names text _ hnode
          rintro ⟨other, hother, hsame⟩
          exact List.filter_eq_nil_iff.1 hrest other hother (decide_eq_true hsame)
        · cases hf
      · apply ih
        rw [← hf, List.filter_cons]
        split
        · rw [List.getLast?_cons_of_ne_nil hrest]
        · rfl

theorem exists_mem_distinctFiles {ms : List MappedModule} {m : MappedModule} (h : m ∈ ms) :
    ∃ k ∈ distinctFiles ms, Path.same k.module.storage.path m.module.storage.path = true := by
  have hfold (ms kept : List MappedModule) (h : m ∈ ms ∨ ∃ k ∈ kept, Path.same k.module.storage.path
      m.module.storage.path = true) : ∃ k ∈ ms.foldl (fun kept m =>
        if kept.any fun k => Path.same k.module.storage.path m.module.storage.path then kept
        else kept ++ [m]) kept, Path.same k.module.storage.path m.module.storage.path = true := by
    induction ms generalizing kept with
    | nil => exact h.resolve_left (by simp)
    | cons next ms ih =>
        apply ih
        dsimp only
        rcases h with h | ⟨k, hk, hsame⟩
        · rcases List.mem_cons.1 h with rfl | h
          · right
            split
            · rename_i hany
              exact List.any_eq_true.1 hany
            · exact ⟨m, List.mem_append_right _ List.mem_cons_self, by simp [Path.same]⟩
          · exact .inl h
        · right
          split
          · exact ⟨k, hk, hsame⟩
          · exact ⟨k, List.mem_append_left _ hk, hsame⟩
  exact hfold ms [] (.inl h)

/-- Where a module of a package lies, there is in the end the last file that was written there. -/
theorem Staged.read {p : InstalledPackage} {root : PackageModule} {w next : World}
    (h : i.Staged n p root files w next t') {m : MappedModule} (hm : m ∈ i.mapped n p.registry root) :
    ∃ f, (files.filter fun f => Path.place f.1.module.storage.path = Path.place m.module.storage.path).getLast? =
      some f ∧ t'.read m.module.storage.path = .ok f.2 := by
  obtain ⟨k, hk, hsame⟩ := exists_mem_distinctFiles hm
  rw [← h.modules, ← h.fst] at hk
  obtain ⟨kept, hkept, rfl⟩ := List.mem_map.1 hk
  have hsteps : Path.steps kept.1.module.storage.path = Path.steps m.module.storage.path :=
    Path.steps_eq_of_same hsame
  have hrival : kept ∈ files.filter fun f =>
      Path.place f.1.module.storage.path = Path.place m.module.storage.path :=
    List.mem_filter.2 ⟨hkept, decide_eq_true (by rw [Path.place, hsteps, Path.place])⟩
  obtain ⟨f, hf⟩ := Option.ne_none_iff_exists'.1 (mt List.getLast?_eq_none_iff.1 (List.ne_nil_of_mem hrival))
  refine ⟨f, hf, ?_⟩
  obtain ⟨directory, last, hnames⟩ := h.writes.names hkept
  obtain ⟨steps, last', hplain, hslash⟩ := i.layout.plain_path m.module.name m.module.target m.module.version
  rw [← described_storage h.storage (described_of_mem_mapped hm)] at hplain hslash
  have hread := hnames.of_steps hsteps hplain hslash
  exact read_eq_ok_iff.2 ⟨directory, last', hread, hread.place_eq ▸ h.writes.node hf⟩

theorem Staged.text {p : InstalledPackage} {root : PackageModule} {w next : World}
    (h : i.Staged n p root files w next t') {m : MappedModule} (hm : m ∈ i.mapped n p.registry root) :
    ∃ last text, (p.modules.filter fun k =>
        Path.place k.module.storage.path = Path.place m.module.storage.path).getLast? = some last ∧
      last ∈ i.mapped n p.registry root ∧ p.registry.prepared n last.module.entrypoint = .ok text ∧
      t'.read m.module.storage.path = .ok text := by
  obtain ⟨f, hf, hread⟩ := h.read hm
  have hmem := List.mem_of_mem_filter (List.mem_of_getLast? hf)
  refine ⟨f.1, f.2, ?_, ?_, h.prepared f hmem, hread⟩
  · rw [← h.fst, List.filter_map, List.getLast?_map]
    exact congrArg (Option.map Prod.fst) hf
  · exact mem_of_mem_distinctFiles (h.modules ▸ h.fst ▸ List.mem_map_of_mem hmem)

end Installer

/-- A package with a module that imports another one of the same file name. -/
def namesakeNetwork : Network :=
  ⟨[("http://cdn.test/app", some ⟨200, "", some "/app@2.0.0", none⟩),
    ("http://cdn.test/app@2.0.0", some ⟨200, "import '/app@2.0.0/lib/app.js'", none, none⟩),
    ("http://cdn.test/app@2.0.0/lib/app.js", some ⟨200, "", none, none⟩)], true⟩

def namesakeModule : PackageModule :=
  .of mirrored.layout "app" (some "lib/app.js") "2.0.0" "/app@2.0.0/lib/app.js"

end WebModules
