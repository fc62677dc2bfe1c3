import WebModules.Proofs.Install.Sequence

/-!
What everyone keeps to who installs packages: clients keep what the network answers, the import map stays
one that is read as it has been printed, and a name in it keeps its path as long as no one enters another
one for it.
-/

namespace WebModules

open Exploration FileTree Schedule

namespace Installer

variable (i : Installer) (n : Network) (requests : List PackageRequest) (lasts : Prop)

/-- Clients have kept what the network answers, and the import map is read as it has been printed, if that
was so at first. -/
structure Proper (w : World) : Prop where
  faithful : w.traffic.Faithful n
  lasting : lasts → Json.Lasting Json.maxDepth (ImportMap.documentIn i.importMapPath w.files)

/-- The import map of a project has a path for a name. -/
def Maps (w : World) (name path : String) : Prop :=
  ImportMap.target? (ImportMap.documentIn i.importMapPath w.files) none name = some path

/-- No other path is entered for a name when packages are installed. -/
def Agreed (name path : String) : Prop :=
  ∀ request ∈ requests, ∀ p, i.found n request = .ok p → ∀ m ∈ p.modules, m.enters none name →
    m.module.storage.relativePath = path

/-- What may have become of a project. -/
structure Later (w w' : World) : Prop where
  proper : i.Proper n lasts w'
  readable : w.files.Readable i.importMapPath → w'.files.Readable i.importMapPath
  maps : lasts → ∀ name path, i.Agreed n requests name path → i.Maps w name path → i.Maps w' name path

/-- A module stands in the import map for the names that it has been entered for. -/
structure Entered (w : World) (m : MappedModule) : Prop where
  readable : w.files.Readable i.importMapPath
  maps : lasts → ∀ name path, i.Agreed n requests name path → m.enters none name → i.Maps w name path

variable {i n requests lasts} {w w' : World}

theorem Proper.later (h : i.Proper n lasts w) : i.Later n requests lasts w w := ⟨h, id, fun _ _ _ _ => id⟩

theorem Later.trans {w'' : World} (h : i.Later n requests lasts w w') (h' : i.Later n requests lasts w' w'') :
    i.Later n requests lasts w w'' :=
  ⟨h'.proper, fun hr => h'.readable (h.readable hr),
    fun hl name path ha hm => h'.maps hl name path ha (h.maps hl name path ha hm)⟩

theorem Entered.later {m : MappedModule} (h : i.Entered n requests lasts w m) (hl : i.Later n requests lasts w w') :
    i.Entered n requests lasts w' m :=
  ⟨hl.readable h.readable, fun hlasts name path ha hm => hl.maps hlasts name path ha (h.maps hlasts name path ha hm)⟩

theorem Maps.readable {name path : String} (h : i.Maps w name path) : w.files.Readable i.importMapPath := by
  by_contra hr
  rw [Maps, ImportMap.documentIn_of_not_readable hr, ImportMap.target?_empty] at h
  cases h

/-- Requests change nothing in the project. -/
theorem Proper.asked (h : i.Proper n lasts w) {t : Traffic} (ht : t.Faithful n) :
    i.Later n requests lasts w { w with traffic := t } :=
  ⟨⟨ht, h.lasting⟩, id, fun _ _ _ _ => id⟩

/-- Where the import map can be read, files may change that have other names. -/
theorem Proper.written (h : i.Proper n lasts w) (hr : w.files.Readable i.importMapPath) {path : String} {t : FileTree}
    (hk : w.files.Keeps (EndsIn path) t) (hne : lastPart? i.importMapPath ≠ lastPart? path) :
    i.Later n requests lasts w { w with files := t } := by
  obtain ⟨text, hread⟩ := hr
  have hread' := hk.read hne hread
  have hsame : ImportMap.documentIn i.importMapPath t = ImportMap.documentIn i.importMapPath w.files := by
    rw [ImportMap.documentIn, ImportMap.documentIn, hread, hread']
  refine ⟨⟨h.faithful, ?_⟩, fun _ => ⟨text, hread'⟩, fun _ name path _ hm => ?_⟩
  · dsimp only
    rw [hsame]
    exact h.lasting
  · rw [Maps]
    dsimp only
    rw [hsame]
    exact hm

/-- A module is entered, or it cannot be since files cannot be written. -/
theorem Proper.persisted (h : i.Proper n lasts w) {request : PackageRequest} {p : ResolvedPackage} {m : MappedModule}
    (hrequest : request ∈ requests) (hp : i.found n request = .ok p) (hm : m ∈ p.modules) :
    i.Later n requests lasts w (i.persist m w).2 ∧
      ((i.persist m w).1 = .ok m ∧ i.Entered n requests lasts (i.persist m w).2 m ∨
        ∃ e : InstallError, (i.persist m w).1 = .error e ∧ e.OfFiles) := by
  rw [persist_world]
  cases hpersist : ImportMap.persist i.importMapPath (ImportMap.fragment m) w.files with
  | mk result files =>
      cases result with
      | ok u =>
          have hread := ImportMap.persist_eq_ok hpersist
          have hlasting (hl : lasts) := ImportMap.lasting_entered (h.lasting hl) m
          have hdocument (hl : lasts) : ImportMap.documentIn i.importMapPath files =
              ImportMap.entered (ImportMap.documentIn i.importMapPath w.files) m :=
            ImportMap.documentIn_of_read hread (hlasting hl)
          have htarget (hl : lasts) (name : String) :
              ImportMap.target? (ImportMap.documentIn i.importMapPath files) none name =
                if m.enters none name then some m.module.storage.relativePath
                else ImportMap.target? (ImportMap.documentIn i.importMapPath w.files) none name := by
            rw [hdocument hl, ImportMap.target?_entered]
          have henters (hl : lasts) (name path : String) (ha : i.Agreed n requests name path)
              (he : m.enters none name) : i.Maps ⟨files, w.traffic⟩ name path := by
            rw [Maps, htarget hl, if_pos he, ha request hrequest p hp m hm he]
          refine ⟨⟨⟨h.faithful, fun hl => hdocument hl ▸ hlasting hl⟩, fun _ => ⟨_, hread⟩,
            fun hl name path ha hmaps => ?_⟩, .inl ⟨rfl, ⟨_, hread⟩, henters⟩⟩
          by_cases he : m.enters none name
          · exact henters hl name path ha he
          · rw [Maps, htarget hl, if_neg he]
            exact hmaps
      | error e =>
          have hbefore := ImportMap.not_readable_of_persist hpersist
          obtain ⟨e', hagain⟩ := ImportMap.persist_again hpersist (ImportMap.fragment m)
          have hafter := ImportMap.documentIn_of_not_readable (ImportMap.not_readable_of_persist hagain)
          refine ⟨⟨⟨h.faithful, fun _ => ?_⟩, fun hr => absurd hr hbefore,
            fun _ _ _ _ hmaps => absurd hmaps.readable hbefore⟩, .inr ⟨_, rfl, trivial⟩⟩
          dsimp only
          rw [hafter]
          exact Json.lasting_empty

/-! Tasks -/

/-- What is expected, unless files cannot be written. -/
def UnlessFiles {α : Type} (expected result : Except InstallError α) : Prop :=
  result = expected ∨ ∃ e : InstallError, result = .error e ∧ e.OfFiles

section Tasks

variable {I : World → Prop} (hI : ∀ w, I w → i.Proper n lasts w)
include hI

theorem meets_asking {α : Type} {work : StateM Traffic α} {a : α} (h : Gives n work a) :
    (asking work).Meets I (i.Later n requests lasts) (· = a) := by
  refine .once fun w hw => ?_
  obtain ⟨hvalue, ht⟩ := h w.traffic (hI w hw).faithful
  exact ⟨(hI w hw).asked ht, hvalue⟩

theorem meets_choosingRegistry (request : PackageRequest) (rs : List Registry) :
    (choosingRegistry n request rs).Meets I (i.Later n requests lasts)
      (· = rs.find? fun r => r.offers n request.name request.target request.version) := by
  induction rs with
  | nil => exact .pure rfl
  | cons r rs ih =>
      rw [choosingRegistry, List.find?_cons]
      refine (meets_asking hI (r.gives_has n _ _ _)).bind ?_
      rintro _ rfl
      cases r.offers n request.name request.target request.version with
      | true => exact .pure rfl
      | false => exact ih

theorem meets_choosing (request : PackageRequest) :
    (i.choosing n request).Meets I (i.Later n requests lasts) (· = i.chosen n request) := by
  rw [choosing, chosen]
  refine (meets_choosingRegistry hI request i.registries).bind ?_
  rintro _ rfl
  cases i.registries.find? fun r => r.offers n request.name request.target request.version with
  | none => exact .pure rfl
  | some r =>
      dsimp only
      refine (meets_asking hI (r.gives_version n _ _ _)).bind ?_
      rintro _ rfl
      cases r.offered n request.name request.target request.version <;> exact .pure rfl

theorem meets_describing (r : Registry) (root : PackageModule) (entrypoint : String) :
    (i.describing n r root entrypoint).Meets I (i.Later n requests lasts)
      (· = (i.described n r root entrypoint).map fun m => (entrypoint, m)) := by
  refine (meets_asking hI (i.gives_describe n r root entrypoint)).bind ?_
  rintro _ rfl
  exact .pure rfl

theorem meets_preparing (r : Registry) (entrypoint : String) :
    (preparing n r entrypoint).Meets I (i.Later n requests lasts) (· = r.prepared n entrypoint) := by
  rw [preparing, Registry.prepared]
  refine (meets_asking hI (r.gives_load n entrypoint)).bind ?_
  rintro _ rfl
  cases r.loaded n entrypoint with
  | error e => exact .pure rfl
  | ok loaded =>
      dsimp only
      rw [rewrite]
      cases Script.walk loaded.source with
      | error e => exact .pure rfl
      | ok records =>
          dsimp only
          cases hplan : Rewrite.plan (ε := Empty) records with
          | error e =>
              rw [Rewrite.walked, hplan]
              exact .pure rfl
          | ok ds =>
              have hnames : (ds.mapM fun d => asking (nameFor n r loaded.location d.specifier)).Meets I
                  (i.Later n requests lasts) (· = ds.map fun d => r.importedName n loaded.location d.specifier) :=
                .mapM fun d _ => meets_asking hI (gives_nameFor r n loaded.location d.specifier)
              rw [Rewrite.walked_eq hplan, Rewrite.resolveAll_eq_ok fun _ _ => rfl]
              refine hnames.bind ?_
              rintro _ rfl
              exact .pure rfl

end Tasks

/-- A module is written with the text that the network has for it, or files cannot be written. -/
theorem meets_downloading (r : Registry) {m : MappedModule} (hm : i.layout.Knows m.module) :
    (downloading n r m).Meets (fun w => i.Proper n lasts w ∧ w.files.Readable i.importMapPath) (i.Later n requests lasts)
      (UnlessFiles ((r.prepared n m.module.entrypoint).map fun _ => m)) := by
  rw [downloading]
  refine (meets_preparing (fun w hw => hw.1) r m.module.entrypoint).bind ?_
  rintro _ rfl
  have hne := i.layout.lastPart?_ne m.module.name m.module.target m.module.version
  rw [← hm.storage] at hne
  cases r.prepared n m.module.entrypoint with
  | error e => exact .pure (.inl rfl)
  | ok text =>
      refine Task.Meets.bind (P := fun _ => True) (.once fun w hw => ⟨?_, trivial⟩) fun made _ => ?_
      · exact hw.1.written hw.2 (keeps_makeDirectories (EndsIn m.module.storage.path) w.files m.module.storage.dir) hne
      · cases made with
        | error e => exact .pure (.inr ⟨_, rfl, trivial⟩)
        | ok u =>
            refine Task.Meets.bind (P := fun _ => True) (.once fun w hw => ⟨?_, trivial⟩) fun written _ => ?_
            · rw [World.onFiles]
              cases hwrite : w.files.write m.module.storage.path text with
              | ok t => exact hw.1.written hw.2 (keeps_write hwrite) hne
              | error e => exact hw.1.later
            · cases written with
              | error e => exact .pure (.inr ⟨_, rfl, trivial⟩)
              | ok u => exact .pure (.inl rfl)

end Installer

end WebModules
