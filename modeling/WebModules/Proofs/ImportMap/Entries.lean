import WebModules.Proofs.FileTree.Repeat
import WebModules.Proofs.ImportMap.Persist
import WebModules.Proofs.ImportMap.Persisted

/-!
The entries of the import map in a file: which of them can be there once modules have been entered, and
what becomes of them if the file cannot be written.
-/

namespace WebModules

open Schedule

/-! What is read of a document that has been printed -/

namespace Json

/-- A value that may be read where another one has been printed. -/
def Echoes (j j' : Json) : Prop := ∃ found : Json, found.outline = j.outline ∧ j' = found.distinct

variable {P : Json.Number → Prop} {depth : Nat} {j j' : Json}

theorem echoes_of_read (h : Json.read (j.pretty ++ "\n") = .ok j') : Echoes j j' := by
  obtain ⟨found, hparse, rfl⟩ := read_eq_ok h
  exact ⟨found, outline_of_parse_pretty hparse, rfl⟩

/-- A field is found only where there was one, and with a value that may be read for that one. -/
theorem Echoes.get? (h : Echoes j j') (hr : Regular P depth j) {name : String} {value' : Json}
    (hv : j'.get? name = some value') :
    ∃ value depth', j.get? name = some value ∧ Regular P depth' value ∧ Echoes value value' := by
  obtain ⟨found, houtline, rfl⟩ := h
  cases found with
  | object fields' =>
      obtain ⟨fields, rfl, hfields⟩ := ImportMap.object_of_outline houtline.symm
      rw [outlineFields_eq, outlineFields_eq] at hfields
      cases hr with
      | @object depth fields names regular =>
          have hnames : ((fields'.map fun f => (f.1, distinct f.2)).map Prod.fst).Nodup := by
            have heq := congrArg (List.map Prod.fst) hfields
            rw [List.map_map, List.map_map] at heq
            rw [List.map_map]
            exact heq ▸ names
          rw [distinct, distinctValues_eq, distinctFields_of_nodup hnames, Json.get?, field?_map,
            Option.map_eq_some_iff] at hv
          obtain ⟨value, hvalue, rfl⟩ := hv
          have heq := congrArg (field? name) hfields
          rw [field?_map, field?_map, hvalue, Option.map_some, Option.map_eq_some_iff] at heq
          obtain ⟨old, hold, hsame⟩ := heq
          exact ⟨old, depth, hold, regular _ (mem_of_field? hold), value, hsame.symm, rfl⟩
  | null | bool | number | string | array => simp [distinct, Json.get?] at hv

theorem Echoes.asString? (h : Echoes j j') {s : String} (hs : j'.asString? = some s) : j.asString? = some s := by
  obtain ⟨found, houtline, rfl⟩ := h
  cases found with
  | string text =>
      obtain rfl := ImportMap.exact_string text j houtline.symm
      exact hs
  | null | bool | number | array | object => simp [distinct, Json.asString?] at hs

end Json

/-- Whether the map of a module has a name in all modules, or in the scope of a directory. -/
def MappedModule.enters (m : MappedModule) : Option String → String → Bool
  | none, name => m.isRoot && m.module.importName == name
  | some directory, name => m.scopes directory name

namespace ImportMap

/-- The path that a document has for a name in all modules, or in the scope of a directory. -/
def target? (document : Json) : Option String → String → Option String
  | none, name => global? document name
  | some directory, name => scoped? document directory name

variable {P : Json.Number → Prop} {depth : Nat} {document document' : Json} {scope : Option String}
  {name path target : String} {m : MappedModule} {t t' : FileTree}

theorem target?_entered (document : Json) (m : MappedModule) (scope : Option String) (name : String) :
    target? (entered document m) scope name =
      if m.enters scope name then some m.module.storage.relativePath else target? document scope name := by
  cases scope with
  | none => exact global?_entered document m name
  | some directory => exact scoped?_entered document m directory name

theorem target?_empty (scope : Option String) (name : String) : target? (.object []) scope name = none := by
  cases scope <;> rfl

/-- No entry comes up in a document by its being printed and read. -/
theorem target?_of_echoes (h : Json.Echoes document document') (hr : Json.Regular P depth document)
    (he : target? document' scope name = some target) : target? document scope name = some target := by
  cases scope with
  | none =>
      obtain ⟨value', hvalue', htext'⟩ := Option.bind_eq_some_iff.1 he
      obtain ⟨part', hpart', hvalue'⟩ := Option.bind_eq_some_iff.1 hvalue'
      obtain ⟨part, _, hpart, hregular, hechoes⟩ := h.get? hr hpart'
      obtain ⟨value, _, hvalue, -, hlast⟩ := hechoes.get? hregular hvalue'
      simp [target?, global?, hpart, hvalue, hlast.asString? htext']
  | some directory =>
      obtain ⟨value', hvalue', htext'⟩ := Option.bind_eq_some_iff.1 he
      obtain ⟨names', hnames', hvalue'⟩ := Option.bind_eq_some_iff.1 hvalue'
      obtain ⟨part', hpart', hnames'⟩ := Option.bind_eq_some_iff.1 hnames'
      obtain ⟨part, _, hpart, hregular, hechoes⟩ := h.get? hr hpart'
      obtain ⟨names, _, hnames, hregular, hechoes⟩ := hechoes.get? hregular hnames'
      obtain ⟨value, _, hvalue, -, hlast⟩ := hechoes.get? hregular hvalue'
      simp [target?, scoped?, hpart, hnames, hvalue, hlast.asString? htext']

theorem regular_documentIn (path : String) (t : FileTree) :
    Json.Regular (fun _ => True) Json.maxDepth (documentIn path t) := by
  have hempty : Json.Regular (fun _ => True) Json.maxDepth (.object []) := .object (by simp) (by simp)
  rw [documentIn]
  split
  · rename_i text _
    cases hj : Json.read text with
    | error e => exact hempty
    | ok document => exact Json.regular_of_read hj
  · exact hempty

/-- An entry of the file in which a module has been entered is that of the module, or was there before. -/
theorem target?_persist (h : persist path (fragment m) t = (.ok (), t'))
    (he : target? (documentIn path t') scope name = some target) :
    m.enters scope name ∧ m.module.storage.relativePath = target ∨
      target? (documentIn path t) scope name = some target := by
  have hprinted : target? (entered (documentIn path t) m) scope name = some target := by
    rw [documentIn, persist_eq_ok h] at he
    cases hj : Json.read (((fragment m).persistIn (documentIn path t)).pretty ++ "\n") with
    | error e =>
        simp only [hj, Except.toOption, Option.getD_none, target?_empty] at he
        cases he
    | ok document' =>
        simp only [hj, Except.toOption, Option.getD_some] at he
        exact target?_of_echoes (Json.echoes_of_read hj) (regular_persistIn (regular_documentIn path t) _) he
  rw [target?_entered] at hprinted
  split at hprinted
  · rename_i henters
    exact .inl ⟨henters, Option.some.inj hprinted⟩
  · exact .inr hprinted

/-! A file that cannot be written -/

/-- The directory of the file is there after it has been made; if it could not be made, it cannot be made
in what is left of the attempt. -/
theorem directoryStep_again (path : String) (t : FileTree) : ∃ t',
    (∀ written : Json × Unit, directoryStep path (.ok written) t = (.ok written, t') ∧
      directoryStep path (.ok written) t' = (.ok written, t')) ∨
    ∃ e e' : ImportMapError, ∀ written : Json × Unit, directoryStep path (.ok written) t = (.error e, t') ∧
      directoryStep path (.ok written) t' = (.error e', t') := by
  cases hparent : Path.parent? path with
  | none => exact ⟨t, .inl fun written => by simp [directoryStep, hparent]⟩
  | some directory =>
      cases hmade : t.makeDirectories directory with
      | mk result t' =>
          refine ⟨t', ?_⟩
          cases result with
          | ok u =>
              obtain ⟨names, hwalk⟩ := FileTree.makeDirectories_eq_ok hmade
              have hagain := FileTree.makeDirectories_existing hwalk
              exact .inl fun written => by simp [directoryStep, hparent, hmade, hagain]
          | error e =>
              obtain ⟨e', hagain⟩ := FileTree.makeDirectories_again hmade
              exact .inr ⟨⟨path, e⟩, ⟨path, e'⟩, fun written => by simp [directoryStep, hparent, hmade, hagain]⟩

theorem persist_run (path : String) (m : ImportMap) (t : FileTree) : persist path m t =
    let drafted := directoryStep path (.ok (m.persistIn (documentIn path t), ())) t
    let written := writeStep path drafted.1 drafted.2
    (answer written.1, written.2) := rfl

/-- Files stay files when a map is persisted, whether it can be or not. -/
theorem preserves_persist (path : String) (m : ImportMap) (t : FileTree) : t.Preserves (persist path m t).2 := by
  have hdirectory (draft : Draft Unit) (t : FileTree) : t.Preserves (directoryStep path draft t).2 := by
    rw [directoryStep.eq_def]
    split
    · rename_i written directory _
      have hmade := FileTree.preserves_makeDirectories t directory
      cases h : t.makeDirectories directory with
      | mk result made =>
          rw [h] at hmade
          cases result <;> exact hmade
    · exact .refl t
  have hwrite (draft : Draft Unit) (t : FileTree) : t.Preserves (writeStep path draft t).2 := by
    rw [writeStep.eq_def]
    split
    · split
      · rename_i written
        exact FileTree.preserves_write written
      · exact .refl t
    · exact .refl t
  rw [persist_run]
  exact (hdirectory _ t).trans (hwrite _ _)

/-- If a map cannot be persisted, then no map can be persisted after that, and nothing more is made. -/
theorem persist_again {f : ImportMap} {e : ImportMapError} (h : persist path f t = (.error e, t')) (g : ImportMap) :
    ∃ e', persist path g t' = (.error e', t') := by
  rw [persist_run] at h
  obtain ⟨made, hmade | ⟨failure, failure', hmade⟩⟩ := directoryStep_again path t
  · rw [(hmade _).1] at h
    dsimp only [writeStep] at h
    split at h
    · cases (Prod.mk.inj h).1
    · rename_i failure hwrite
      obtain ⟨-, rfl⟩ := Prod.mk.inj h
      rw [persist_run, (hmade _).2]
      dsimp only [writeStep]
      rw [FileTree.write_eq_error hwrite]
      exact ⟨_, rfl⟩
  · rw [(hmade _).1] at h
    dsimp only [writeStep] at h
    obtain ⟨-, rfl⟩ := Prod.mk.inj h
    rw [persist_run, (hmade _).2]
    exact ⟨_, rfl⟩

theorem documentIn_of_not_readable (h : ¬ t.Readable path) : documentIn path t = .object [] := by
  rw [documentIn]
  split
  · rename_i text hr
    exact absurd ⟨text, hr⟩ h
  · rfl

/-- Where a map cannot be persisted there is no file that could be read. -/
theorem not_readable_of_persist {f : ImportMap} {e : ImportMapError} (h : persist path f t = (.error e, t')) :
    ¬ t.Readable path := by
  rintro ⟨text, hr⟩
  rw [persist_eq hr] at h
  cases (Prod.mk.inj h).1

end ImportMap

namespace Installer

variable {i : Installer} {ms ms' : List MappedModule} {w w' : World}

theorem persist_world (i : Installer) (m : MappedModule) (w : World) : i.persist m w =
    match ImportMap.persist i.importMapPath (ImportMap.fragment m) w.files with
    | (.ok (), files) => (.ok m, { w with files := files })
    | (.error e, files) => (.error (.importMap e), { w with files := files }) := by
  cases h : ImportMap.persist i.importMapPath (ImportMap.fragment m) w.files with
  | mk result files =>
      simp only [persist, World.onFiles, h, bind, StateT.bind]
      cases result <;> rfl

theorem persist_settles_readable {results : List (Except InstallError MappedModule)}
    (h : Pipeline.Settles i.persist ms results w w') (hr : w.files.Readable i.importMapPath) :
    results = ms.map .ok := by
  induction h with
  | nil w => rfl
  | @cons m ms result results w w' w'' first rest ih =>
      obtain ⟨text, hread⟩ := hr
      have hpersist := ImportMap.persist_eq hread (ImportMap.fragment m)
      have hread' := ImportMap.persist_eq_ok hpersist
      rw [persist_world, hpersist] at first
      obtain ⟨rfl, rfl⟩ := Prod.mk.inj first
      rw [List.map_cons, ih ⟨_, hread'⟩]

theorem persist_settles_stuck {results : List (Except InstallError MappedModule)}
    (h : Pipeline.Settles i.persist ms results w w')
    (hs : ∀ m, ∃ e, ImportMap.persist i.importMapPath m w.files = (.error e, w.files)) : w'.files = w.files := by
  induction h with
  | nil w => rfl
  | @cons m ms result results w w' w'' first rest ih =>
      obtain ⟨e, hstuck⟩ := hs (ImportMap.fragment m)
      rw [persist_world, hstuck] at first
      obtain ⟨-, rfl⟩ := Prod.mk.inj first
      exact ih hs

/-- If a module cannot be entered, then none is, and there has been no entry before either. -/
theorem persist_settles_error {results : List (Except InstallError MappedModule)} {e : InstallError}
    (h : Pipeline.Settles i.persist ms results w w') (he : Pipeline.collect results = .error e) :
    ImportMap.documentIn i.importMapPath w'.files = .object [] := by
  cases h with
  | nil => cases he
  | @cons m ms result results w next w' first rest =>
      rw [persist_world] at first
      cases hpersist : ImportMap.persist i.importMapPath (ImportMap.fragment m) w.files with
      | mk outcome files =>
          rw [hpersist] at first
          cases outcome with
          | ok u =>
              obtain ⟨rfl, rfl⟩ := Prod.mk.inj first
              rw [persist_settles_readable rest ⟨_, ImportMap.persist_eq_ok hpersist⟩, ← List.map_cons,
                Pipeline.collect_map_ok] at he
              cases he
          | error failure =>
              obtain ⟨-, rfl⟩ := Prod.mk.inj first
              have hstuck := ImportMap.persist_again hpersist
              rw [persist_settles_stuck rest hstuck]
              obtain ⟨e', hagain⟩ := hstuck (ImportMap.fragment m)
              exact ImportMap.documentIn_of_not_readable (ImportMap.not_readable_of_persist hagain)

/-- An entry that is there after modules have been entered is that of one of them, or was there before. -/
theorem target?_persist_runs (h : Pipeline.Runs i.persist ms ms' w w') {scope : Option String} {name target : String}
    (he : ImportMap.target? (ImportMap.documentIn i.importMapPath w'.files) scope name = some target) :
    (∃ m ∈ ms, m.enters scope name ∧ m.module.storage.relativePath = target) ∨
      ImportMap.target? (ImportMap.documentIn i.importMapPath w.files) scope name = some target := by
  induction h with
  | nil w => exact .inr he
  | cons first rest ih =>
      rcases ih he with ⟨m, hm, henters⟩ | he
      · exact .inl ⟨m, List.mem_cons_of_mem _ hm, henters⟩
      · obtain ⟨-, -, hpersist⟩ := persist_eq_ok first
        rcases ImportMap.target?_persist hpersist he with henters | hbefore
        · exact .inl ⟨_, List.mem_cons_self, henters⟩
        · exact .inr hbefore

/-- Once a module has been entered, the import map can be read. -/
theorem readable_persist_runs (h : Pipeline.Runs i.persist ms ms' w w')
    (hr : ms ≠ [] ∨ w.files.Readable i.importMapPath) : w'.files.Readable i.importMapPath := by
  induction h with
  | nil w => exact hr.resolve_left (by simp)
  | cons first rest ih =>
      obtain ⟨-, -, hpersist⟩ := persist_eq_ok first
      exact ih (.inr ⟨_, ImportMap.persist_eq_ok hpersist⟩)

end Installer

end WebModules
