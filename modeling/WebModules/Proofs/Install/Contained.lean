import WebModules.Proofs.Install.Known
import WebModules.Proofs.Install.Texts

/-!
Where an installation changes a project: in the output directory and on the way to it, and where a
module climbs out of its directory.
-/

namespace WebModules

open FileTree Schedule WebModules.Path

variable {names : List String}

theorem Path.prefix_foldl_follow {steps : List Component} (h : .parent ∉ steps) (names : List String) :
    names <+: steps.foldl follow names := by
  induction steps generalizing names with
  | nil => exact List.prefix_rfl
  | cons step steps ih =>
      have hrest := ih fun hmem => h (List.mem_cons_of_mem _ hmem)
      cases step with
      | parent => exact absurd List.mem_cons_self h
      | root | current => exact hrest names
      | normal name => exact (List.prefix_append names [name]).trans (hrest (names ++ [name]))

/-- A path that goes on from another one without going up stays on the way to it or below it. -/
theorem FileTree.Passes.below {base path : String} {rest : List Component} (h : Passes path names)
    (hs : steps path = steps base ++ rest) (hr : .parent ∉ rest) : Passes base names ∨ Path.place base <+: names := by
  obtain ⟨before, hbefore, rfl⟩ := h
  rw [hs] at hbefore
  rcases List.prefix_or_prefix_of_prefix hbefore (List.prefix_append (steps base) rest) with hbase | hbase
  · exact .inl ⟨before, hbase, rfl⟩
  · right
    obtain ⟨inner, rfl⟩ := hbase
    rw [List.foldl_append]
    have hinner : inner <+: rest := (List.prefix_append_right_inj (steps base)).1 hbefore
    exact prefix_foldl_follow (fun hmem => hr (hinner.subset hmem)) _

theorem Path.place_below {base path : String} {rest : List Component} (hs : steps path = steps base ++ rest)
    (hr : .parent ∉ rest) : place base <+: place path := by
  rw [place, place, hs, List.foldl_append]
  exact prefix_foldl_follow hr _

example : place "/project/web_modules" <+: place "/project/web_modules/app/2.0.0/app.js" := by
  decide +kernel

/-- The name, the version or the file of a module goes up in the tree, or the file starts from the root. -/
def PackageModule.Climbs (m : PackageModule) : Prop :=
  .parent ∈ steps m.name ∨ .parent ∈ steps m.version ∨ .parent ∈ steps (Layout.fileName m.name m.target) ∨
    isAbsolute (Layout.fileName m.name m.target) = true

namespace Layout.Knows

variable {l : Layout} {m : PackageModule}

theorem steps_dir (h : l.Knows m) : steps m.storage.dir = steps l.outputDir ++ (steps m.name ++ steps m.version) := by
  rw [h.storage]
  apply steps_packageDir
  rw [Bool.eq_false_iff]
  intro hslash
  obtain ⟨rest, hrest⟩ := isAbsolute_iff.1 hslash
  exact h.version (hrest ▸ List.mem_cons_self)

theorem dir_below (h : l.Knows m) (hc : ¬ m.Climbs) (hp : Passes m.storage.dir names) :
    Passes l.outputDir names ∨ place l.outputDir <+: names := by
  apply hp.below h.steps_dir
  intro hmem
  rcases List.mem_append.1 hmem with hname | hversion
  · exact hc (.inl hname)
  · exact hc (.inr (.inl hversion))

theorem file_below (h : l.Knows m) (hc : ¬ m.Climbs) : place l.outputDir <+: place m.storage.path := by
  have hrelative : isAbsolute (fileName m.name m.target) = false :=
    Bool.eq_false_iff.2 fun habsolute => hc (.inr (.inr (.inr habsolute)))
  have hpath : m.storage.path = push m.storage.dir (fileName m.name m.target) := by
    rw [h.storage]
    rfl
  have hsteps : steps m.storage.path = steps l.outputDir ++
      (steps m.name ++ steps m.version ++ steps (fileName m.name m.target)) := by
    rw [hpath, steps_push hrelative, h.steps_dir, List.append_assoc]
  apply place_below hsteps
  intro hmem
  rcases List.mem_append.1 hmem with hdir | hfile
  · rcases List.mem_append.1 hdir with hname | hversion
    · exact hc (.inl hname)
    · exact hc (.inr (.inl hversion))
  · exact hc (.inr (.inr (.inl hfile)))

end Layout.Knows

/-! The import map -/

namespace ImportMap

variable {path : String}

theorem grows_directoryStep {α : Type} (changed : List String → Prop) (draft : Draft α) (t : FileTree) :
    Grows changed (Passes path) t (directoryStep path draft t).2 := by
  rw [directoryStep.eq_def]
  split
  · rename_i written directory hparent
    have hmade : Grows changed (Passes path) t (t.makeDirectories directory).2 :=
      (grows_makeDirectories changed t directory).mono (fun _ hc => hc) fun _ hm => .inr (hm.of_parent hparent)
    cases h : t.makeDirectories directory with
    | mk result t' =>
        rw [h] at hmade
        cases result <;> exact hmade
  · exact .refl _ _ t

theorem grows_writeStep {α : Type} (made : List String → Prop) (draft : Draft α) (t : FileTree) :
    Grows (· = place path) made t (writeStep path draft t).2 := by
  rw [writeStep.eq_def]
  split
  · split
    · rename_i t' hwrite
      exact grows_write hwrite made
    · exact .refl _ _ t
  · exact .refl _ _ t

theorem grows_persist (path : String) (m : ImportMap) (t : FileTree) :
    Grows (· = place path) (Passes path) t (persist path m t).2 :=
  (grows_directoryStep _ _ t).trans (grows_writeStep _ _ _)

end ImportMap

namespace Installer

variable {i : Installer} {n : Network}

theorem grows_persistModule (m : MappedModule) (w : World) :
    Grows (· = place i.importMapPath) (Passes i.importMapPath) w.files (i.persist m w).2.files := by
  rw [persist, World.onFiles_bind]
  have hgrows := ImportMap.grows_persist i.importMapPath (ImportMap.fragment m) w.files
  cases h : ImportMap.persist i.importMapPath (ImportMap.fragment m) w.files with
  | mk result t =>
      rw [h] at hgrows
      cases result <;> exact hgrows

theorem grows_download (r : Registry) (m : MappedModule) (w : World) :
    Grows (· = place m.module.storage.path) (Passes m.module.storage.dir) w.files (download n r m w).2.files := by
  rcases files_download n r m w with hsame | ⟨text, hwritten⟩
  · rw [hsame]
    exact .refl _ _ _
  · rw [hwritten]
    exact grows_writeModule m.module.storage text w.files

theorem grows_settles {α : Type} {changed made : List String → Prop} {ms : List MappedModule}
    {work : MappedModule → StateM World (Except InstallError α)} {results : List (Except InstallError α)} {w w' : World}
    (h : Pipeline.Settles work ms results w w')
    (hwork : ∀ m ∈ ms, ∀ w, Grows changed made w.files (work m w).2.files) :
    Grows changed made w.files w'.files :=
  h.relates (R := fun (w w' : World) => Grows changed made w.files w'.files)
    (fun w => .refl _ _ w.files) (fun _ _ _ hfirst hsecond => hfirst.trans hsecond) hwork

theorem grows_persistAll (p : ResolvedPackage) (w : World) :
    Grows (place i.layout.outputDir <+: ·) (Passes i.layout.outputDir) w.files (i.persistAll p w).2.files := by
  have hsteps : steps i.importMapPath = steps i.layout.outputDir ++ [.normal "import-map.json"] :=
    steps_push rfl _
  have hmodule (m : MappedModule) (w : World) : Grows (place i.layout.outputDir <+: ·) (Passes i.layout.outputDir)
      w.files (i.persist m w).2.files := by
    apply (grows_persistModule m w).mono
    · rintro names rfl
      exact place_below hsteps (by simp)
    · intro names hp
      exact (hp.below hsteps (by simp)).symm
  obtain ⟨results, hsettles, -⟩ := settles_persistAll (i := i) (p := p) (w := w) rfl
  exact grows_settles hsettles fun m _ => hmodule m

/-- Places that are reached for a module that climbs. -/
def Strays (ms : List MappedModule) (names : List String) : Prop :=
  ∃ m ∈ ms, m.module.Climbs ∧ (names = place m.module.storage.path ∨ Passes m.module.storage.dir names)

theorem grows_downloadAll {p : ResolvedPackage} (hp : ∀ m ∈ p.modules, i.layout.Knows m.module) (w : World) :
    Grows (fun names => place i.layout.outputDir <+: names ∨ Strays p.modules names)
      (Passes i.layout.outputDir) w.files (downloadAll n p w).2.files := by
  have hmodule (m : MappedModule) (hm : m ∈ distinctFiles p.modules) (w : World) :
      Grows (fun names => place i.layout.outputDir <+: names ∨ Strays p.modules names)
        (Passes i.layout.outputDir) w.files (download n p.registry m w).2.files := by
    have hmem := mem_of_mem_distinctFiles hm
    have hknown := hp m hmem
    apply (grows_download p.registry m w).mono
    · rintro names rfl
      by_cases hc : m.module.Climbs
      · exact .inr ⟨m, hmem, hc, .inl rfl⟩
      · exact .inl (hknown.file_below hc)
    · intro names hpasses
      by_cases hc : m.module.Climbs
      · exact .inl (.inr ⟨m, hmem, hc, .inr hpasses⟩)
      · exact (hknown.dir_below hc hpasses).symm.imp_left .inl
  obtain ⟨results, hsettles, -⟩ := settles_downloadAll (n := n) (p := p) (w := w) rfl
  exact grows_settles hsettles hmodule

theorem grows_install (i : Installer) (n : Network) (request : PackageRequest) (w : World) :
    Grows (fun names => place i.layout.outputDir <+: names ∨
        ∃ p, (i.find n request w.traffic).1 = .ok p ∧ Strays p.modules names)
      (Passes i.layout.outputDir) w.files (i.install n request w).2.files := by
  have hknown := i.ensures_find n request w.traffic
  have hentered {p : ResolvedPackage} {result : Except InstallError ResolvedPackage} {next : World}
      (h : i.persistAll p ⟨w.files, (i.find n request w.traffic).2⟩ = (result, next)) :
      Grows (fun names => place i.layout.outputDir <+: names ∨
        ∃ p, (i.find n request w.traffic).1 = .ok p ∧ Strays p.modules names)
        (Passes i.layout.outputDir) w.files next.files := by
    have hgrows := grows_persistAll (i := i) p ⟨w.files, (i.find n request w.traffic).2⟩
    rw [h] at hgrows
    exact hgrows.mono (fun _ hc => .inl hc) fun _ hm => .inr hm
  cases h : i.install n request w with
  | mk outcome w' =>
      rcases install_cases h with ⟨-, -, -, hsame⟩ | ⟨p, hfound, ⟨e, hpersist, -⟩ | ⟨p', next, hpersist, hdownload⟩⟩
      · rw [hsame]
        exact .refl _ _ _
      · exact hentered hpersist
      · obtain ⟨rfl, -, -⟩ := persistAll_eq_ok hpersist
        have hgrows := grows_downloadAll (n := n) (hknown _ hfound) next
        rw [hdownload] at hgrows
        apply (hentered hpersist).trans
        apply hgrows.mono
        · intro names hc
          exact hc.imp_right fun hstrays => ⟨_, hfound, hstrays⟩
        · intro names hm
          exact .inr hm

end Installer

/-- A network with a module that is served from a path on which two dots are a name and a version. -/
def climbingNetwork : Network :=
  ⟨[("http://cdn.test/app", some ⟨200, "", some "/app@2.0.0", none⟩),
    ("http://cdn.test/app@2.0.0", some ⟨200, "import '/..@../x.js'", none, none⟩),
    ("http://cdn.test/..@../x.js", some ⟨200, "", none, none⟩)], true⟩

def climbingModule : PackageModule := .of mirrored.layout ".." (some "x.js") ".." "/..@../x.js"

end WebModules
