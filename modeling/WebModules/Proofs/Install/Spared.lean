import WebModules.Proofs.Install.Contained
import WebModules.Proofs.Install.Turns

/-!
Files that installing does not write, since no file that is installed has their name.  They stay as they
are however packages are installed together; where there is nothing, at most a directory is made.
-/

namespace WebModules

open FileTree Schedule WebModules.Path

namespace Installer

variable {i : Installer} {n : Network} {name : String} {w w' w'' : World}

/-- The name of neither the import map nor a module. -/
structure Foreign (name : String) : Prop where
  map : name ≠ "import-map.json"
  module : ∀ part : List Char, name ≠ String.ofList (part ++ ".js".toList)

/-- Nothing changes in places of a name, but that directories may be made. -/
def Spares (name : String) (w w' : World) : Prop :=
  Grows (fun names => names.getLast? ≠ some name) (fun _ => True) w.files w'.files

theorem Spares.refl (name : String) (w : World) : Spares name w w := Grows.refl _ _ _

theorem Spares.trans (h : Spares name w w') (h' : Spares name w' w'') : Spares name w w'' := Grows.trans h h'

theorem spares_of_grows {made : List String → Prop} {path : String} (h : Grows (· = place path) made w.files w'.files)
    (hp : (place path).getLast? ≠ some name) : Spares name w w' :=
  h.mono (fun _ hn => hn ▸ hp) fun _ _ => .inr trivial

theorem Foreign.place_map (h : Foreign name) (l : Layout) : (place l.importMapPath).getLast? ≠ some name := by
  have hsteps : steps l.importMapPath = steps l.outputDir ++ [.normal "import-map.json"] := steps_push rfl _
  rw [getLast?_place (by rw [hsteps, List.getLast?_concat])]
  exact fun heq => h.map (Option.some.inj heq).symm

theorem Foreign.place_module (h : Foreign name) {l : Layout} {m : PackageModule} (hm : l.Knows m) :
    (place m.storage.path).getLast? ≠ some name := by
  rw [hm.storage]
  obtain ⟨before, hpath⟩ := push_eq (Layout.packageDir l.outputDir m.name m.version) (stem (m.target.getD m.name) ++ ".js")
  rw [String.toList_append, ← List.append_assoc] at hpath
  obtain ⟨part, hpart⟩ := getLast?_steps hpath (by decide) (by decide)
  rw [Layout.storage, getLast?_place hpart]
  exact fun heq => h.module part (Option.some.inj heq).symm

theorem rule_spares (h : Foreign name) : Rule i n (Spares name) where
  refl := .refl name
  trans := .trans
  ask _ w := .refl name w
  enter m w := spares_of_grows (grows_persistModule m w) (h.place_map _)
  make _ w := (grows_makeDirectories _ w.files _).mono (fun _ => id) fun _ _ => .inr trivial
  write known _ _ _ written := spares_of_grows (grows_write written fun _ => True) (h.place_module known)

end Installer

end WebModules
