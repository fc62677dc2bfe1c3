import WebModules.Install.Basic
import WebModules.Proofs.FileTree
import WebModules.Proofs.ImportMap.Merge
import WebModules.Proofs.Schedule.Pipeline

/-!
The import map of a project holds every module that is entered in it, and stays as it is while the
files of the modules are written.
-/

namespace WebModules

open Schedule

namespace ImportMap

variable {t t' : FileTree} {path : String}

theorem writeStep_eq_ok {draft : Draft Unit} (h : answer (writeStep path draft t).1 = .ok ()) :
    ∃ document, draft = .ok (document, ()) ∧
      (writeStep path draft t).2.read path = .ok (document.pretty ++ "\n") := by
  unfold writeStep at h ⊢
  cases draft with
  | error e => cases h
  | ok written =>
      obtain ⟨document, value⟩ := written
      refine ⟨document, rfl, ?_⟩
      dsimp only at h ⊢
      cases hw : t.write path (document.pretty ++ "\n") with
      | error e =>
          rw [hw] at h
          cases h
      | ok after => exact FileTree.read_of_write hw

theorem directoryStep_eq_ok {draft : Draft Unit} {document : Json}
    (h : (directoryStep path draft t).1 = .ok (document, ())) : draft = .ok (document, ()) := by
  unfold directoryStep at h
  split at h
  · split at h
    · exact h
    · cases h
  · exact h

/-- What has been written is the document that was there with the map merged into it. -/
theorem persist_eq_ok {m : ImportMap} (h : persist path m t = (.ok (), t')) :
    t'.read path = .ok ((m.persistIn (documentIn path t)).pretty ++ "\n") := by
  obtain ⟨hanswer, rfl⟩ := Prod.mk.inj h
  obtain ⟨document, hdraft, hread⟩ := writeStep_eq_ok hanswer
  cases directoryStep_eq_ok hdraft
  exact hread

theorem documentIn_of_read {document : Json} (h : t.read path = .ok (document.pretty ++ "\n"))
    (hl : Json.Lasting Json.maxDepth document) : documentIn path t = document := by
  rw [documentIn, h]
  simp only [Json.read_pretty hl]
  rfl

end ImportMap

namespace Installer

variable {i : Installer}

/-- A project in which a document stands as its import map. -/
structure Holds (i : Installer) (document : Json) (files : FileTree) : Prop where
  lasting : Json.Lasting Json.maxDepth document
  read : files.read i.importMapPath = .ok (document.pretty ++ "\n")

theorem Holds.documentIn_eq {document : Json} {files : FileTree} (h : i.Holds document files) :
    ImportMap.documentIn i.importMapPath files = document :=
  ImportMap.documentIn_of_read h.read h.lasting

theorem persist_eq_ok {m m' : MappedModule} {w w' : World} (h : i.persist m w = (.ok m', w')) :
    m' = m ∧ w'.traffic = w.traffic ∧
      ImportMap.persist i.importMapPath (ImportMap.fragment m) w.files = (.ok (), w'.files) := by
  cases hp : ImportMap.persist i.importMapPath (ImportMap.fragment m) w.files with
  | mk result files =>
      simp only [persist, World.onFiles, hp, bind, StateT.bind] at h
      cases result with
      | error e => cases h
      | ok u =>
          cases h
          exact ⟨rfl, rfl, rfl⟩

theorem holds_persist {m m' : MappedModule} {w w' : World} (h : i.persist m w = (.ok m', w'))
    (hl : Json.Lasting Json.maxDepth (ImportMap.documentIn i.importMapPath w.files)) :
    i.Holds (ImportMap.entered (ImportMap.documentIn i.importMapPath w.files) m) w'.files := by
  obtain ⟨-, -, hpersisted⟩ := persist_eq_ok h
  exact ⟨ImportMap.lasting_entered hl m, ImportMap.persist_eq_ok hpersisted⟩

/-- Modules are entered one after the other, and nothing is requested for that. -/
theorem persist_runs {ms ms' : List MappedModule} {w w' : World} (h : Pipeline.Runs i.persist ms ms' w w') :
    ms' = ms ∧ w'.traffic = w.traffic := by
  induction h with
  | nil w => exact ⟨rfl, rfl⟩
  | cons first rest ih =>
      obtain ⟨rfl, htraffic, -⟩ := persist_eq_ok first
      exact ⟨congrArg _ ih.1, ih.2.trans htraffic⟩

theorem Holds.persist_runs {document : Json} {ms ms' : List MappedModule} {w w' : World}
    (hd : i.Holds document w.files) (h : Pipeline.Runs i.persist ms ms' w w') :
    i.Holds (ms.foldl ImportMap.entered document) w'.files := by
  induction h generalizing document with
  | nil w => exact hd
  | cons first rest ih =>
      have hentered := holds_persist first (hd.documentIn_eq ▸ hd.lasting)
      rw [hd.documentIn_eq] at hentered
      exact ih hentered

/-- After modules have been entered one after the other, the import map holds them all. -/
theorem holds_persist_runs {m : MappedModule} {ms ms' : List MappedModule} {w w' : World}
    (h : Pipeline.Runs i.persist (m :: ms) ms' w w')
    (hl : Json.Lasting Json.maxDepth (ImportMap.documentIn i.importMapPath w.files)) : i.Holds
      ((m :: ms).foldl ImportMap.entered (ImportMap.documentIn i.importMapPath w.files)) w'.files := by
  cases h with
  | cons first rest => exact (holds_persist first hl).persist_runs rest

theorem Holds.keep {document : Json} {t t' : FileTree} {path : String} (h : i.Holds document t)
    (hk : t.Keeps (FileTree.EndsIn path) t')
    (hne : FileTree.lastPart? i.importMapPath ≠ FileTree.lastPart? path) : i.Holds document t' :=
  ⟨h.lasting, hk.read hne h.read⟩

end Installer

end WebModules
