import WebModules.Proofs.Install.Turns

/-!
What is requested when packages are installed together, in whatever order they are worked on.
-/

namespace WebModules

open Schedule

namespace Installer

/-- Work on a project that makes no requests but those of clients that are asked for modules. -/
def Requests (n : Network) (w w' : World) : Prop := ∃ asked, Traffic.Spends n w.traffic asked w'.traffic

theorem Requests.refl (n : Network) (w : World) : Requests n w w := ⟨[], .refl n w.traffic⟩

theorem Requests.trans {n : Network} {w w' w'' : World} (h : Requests n w w') (h' : Requests n w' w'') :
    Requests n w w'' := by
  obtain ⟨asked, hspends⟩ := h
  obtain ⟨asked', hspends'⟩ := h'
  exact ⟨asked ++ asked', hspends.trans hspends'⟩

theorem rule_requests (i : Installer) (n : Network) : Rule i n (Requests n) where
  refl := .refl n
  trans := .trans
  ask spending w := spending w.traffic
  enter m w := by
    rw [persist_world]
    split <;> exact .refl n _
  make _ w := .refl n w
  write _ w _ _ _ := .refl n w

end Installer

/-- A package whose module imports itself from the URL that it is served from. -/
def aliasNetwork : Network :=
  ⟨[("http://cdn.test/app", some ⟨200, "", some "/app@2.0.0", none⟩),
    ("http://cdn.test/app@2.0.0", some ⟨200, "import '/app@2.0.0'", none, none⟩)], true⟩

end WebModules
