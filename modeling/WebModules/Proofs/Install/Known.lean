import WebModules.Install.Basic
import WebModules.Proofs.Registry.Answers
import WebModules.Proofs.Text

/-!
What is known of the modules that are found for a request, whatever the network answers: they lie where
the layout puts them, and their versions are single segments of paths.
-/

namespace WebModules

variable {α β : Type}

/-- Work on traffic that has a result of a certain kind, whatever has been kept. -/
def Ensures (work : StateM Traffic α) (P : α → Prop) : Prop := ∀ t, P (work t).1

namespace Ensures

variable {work : StateM Traffic α} {P : α → Prop} {Q : β → Prop}

theorem pure {a : α} (h : P a) : Ensures (pure a) P := fun _ => h

theorem bind (h : Ensures work P) {next : α → StateM Traffic β} (hnext : ∀ a, P a → Ensures (next a) Q) :
    Ensures (work >>= next) Q :=
  fun t => hnext (work t).1 (h t) (work t).2

theorem mapM {items : List β} {work : β → StateM Traffic α} (h : ∀ item ∈ items, Ensures (work item) P) :
    Ensures (items.mapM work) fun results => ∀ a ∈ results, P a := by
  induction items with
  | nil => exact .pure (by simp)
  | cons item items ih =>
      rw [List.mapM_cons]
      have hrest := ih fun next hnext => h next (List.mem_cons_of_mem _ hnext)
      refine (h item List.mem_cons_self).bind fun a ha => hrest.bind fun results hresults => ?_
      exact .pure (List.forall_mem_cons.2 ⟨ha, hresults⟩)

end Ensures

/-- The version of a module is a part of one segment of the path that it was served from. -/
theorem Backend.slash_notMem_version {b : Backend} {path : String} {m : ModuleIdentity}
    (h : b.identify? path = some m) : '/' ∉ m.version.toList := by
  cases b with
  | pika =>
      rw [identify?, identifyPika?.eq_def] at h
      split at h
      · obtain ⟨⟨name, rest⟩, hname, h⟩ := Option.bind_eq_some_iff.1 h
        dsimp only at h
        split at h
        · obtain ⟨⟨segment, inner⟩, hsegment, h⟩ := Option.bind_eq_some_iff.1 h
          obtain ⟨⟨version, hash⟩, hversion, h⟩ := Option.bind_eq_some_iff.1 h
          dsimp only at h
          split at h
          · cases h
          · cases h
            obtain ⟨hslash, -⟩ := Text.splitFirst?_eq_some hsegment
            have hcut : segment = version ++ '-' :: hash := Text.splitLast?_eq_some hversion
            rw [hcut] at hslash
            rw [String.toList_ofList]
            exact fun hmem => hslash (List.mem_append_left _ hmem)
        · cases h
      · cases h
  | unpkg =>
      rw [identify?, identifyUnpkg?.eq_def] at h
      split at h
      · obtain ⟨⟨name, rest⟩, hname, h⟩ := Option.bind_eq_some_iff.1 h
        dsimp only at h
        split at h
        · cases h
        · cases h
          rw [String.toList_ofList, splitSegment]
          split
          · rename_i segment inner hsegment
            exact (Text.splitFirst?_eq_some hsegment).1
          · rename_i hnone
            exact Text.notMem_of_splitFirst?_eq_none hnone
      · cases h

/-- A module lies where the layout puts it, and its version is a segment of a path. -/
structure Layout.Knows (l : Layout) (m : PackageModule) : Prop where
  storage : m.storage = l.storage m.name m.target m.version
  version : '/' ∉ m.version.toList

namespace Registry

variable (r : Registry) (n : Network)

theorem ensures_identify (path : String) : Ensures (r.identify n path) fun result =>
    ∀ m, result = .ok m → '/' ∉ m.version.toList := by
  rw [identify]
  refine Ensures.bind (P := fun _ => True) (fun _ => trivial) fun served _ => ?_
  cases served with
  | error e => exact .pure nofun
  | ok served =>
      dsimp only
      cases hidentity : r.backend.identify? served.path with
      | none => exact .pure nofun
      | some identity =>
          refine .pure fun m hm => ?_
          cases hm
          exact Backend.slash_notMem_version hidentity

theorem ensures_version (package : String) (target version : Option String) :
    Ensures (r.version n package target version) fun result => ∀ v, result = .ok v → '/' ∉ v.toList := by
  rw [Registry.version]
  refine (r.ensures_identify n _).bind fun identified hidentified => ?_
  cases identified with
  | error e => exact .pure nofun
  | ok identity =>
      dsimp only
      cases Version.parse? identity.version with
      | none => exact .pure nofun
      | some v =>
          refine .pure fun version hversion => ?_
          cases hversion
          exact hidentified identity rfl

end Registry

namespace Installer

variable (i : Installer) (n : Network)

theorem ensures_describe (r : Registry) {root : PackageModule} (hroot : i.layout.Knows root) (entrypoint : String) :
    Ensures (i.describe n r root entrypoint) fun m? => ∀ m ∈ m?, i.layout.Knows m := by
  rw [describe]
  split
  · exact .pure (by simpa using hroot)
  · refine (r.ensures_identify n entrypoint).bind fun identified hidentified => ?_
    cases identified with
    | error e => exact .pure (by simp)
    | ok identity =>
        refine .pure fun m hm => ?_
        cases hm
        exact ⟨rfl, hidentified identity rfl⟩

theorem mem_mappedModules {root : PackageModule} {graph : DependencyGraph RegistryError}
    {known : List (String × PackageModule)} {m : MappedModule} (h : m ∈ mappedModules root graph known) :
    m.module = root ∨ ∃ entrypoint, (entrypoint, m.module) ∈ known := by
  rw [mappedModules] at h
  rcases List.mem_cons.1 h with rfl | h
  · exact .inl rfl
  · right
    obtain ⟨edge, -, h⟩ := List.mem_flatMap.1 h
    split at h
    · cases h
    · obtain ⟨child, -, h⟩ := List.mem_filterMap.1 h
      obtain ⟨module, hmodule, rfl⟩ := Option.map_eq_some_iff.1 h
      exact ⟨child, mem_of_lookup hmodule⟩

theorem knows_mappedModules {root : PackageModule} (hroot : i.layout.Knows root) {graph : DependencyGraph RegistryError}
    {described : List (Option (String × PackageModule))} (h : ∀ entry? ∈ described, ∀ entry ∈ entry?, i.layout.Knows entry.2)
    {m : MappedModule} (hm : m ∈ mappedModules root graph (described.filterMap id)) : i.layout.Knows m.module := by
  rcases mem_mappedModules hm with hm | ⟨entrypoint, hmem⟩
  · rw [hm]
    exact hroot
  · obtain ⟨entry, hentry, heq⟩ := List.mem_filterMap.1 hmem
    exact h entry hentry _ heq

theorem ensures_modulesOf (r : Registry) {root : PackageModule} (hroot : i.layout.Knows root)
    (graph : DependencyGraph RegistryError) :
    Ensures (i.modulesOf n r root graph) fun ms => ∀ m ∈ ms, i.layout.Knows m.module := by
  rw [modulesOf]
  have hdescribed (entrypoint : String) : Ensures (do return (← i.describe n r root entrypoint).map fun m => (entrypoint, m))
      fun entry? => ∀ entry ∈ entry?, i.layout.Knows entry.2 := by
    refine (i.ensures_describe n r hroot entrypoint).bind fun m? hm => .pure fun entry hentry => ?_
    obtain ⟨m, hsome, rfl⟩ := Option.map_eq_some_iff.1 hentry
    exact hm m hsome
  refine (Ensures.mapM fun entrypoint _ => hdescribed entrypoint).bind fun described hknown => .pure fun m hm => ?_
  exact i.knows_mappedModules hroot hknown hm

theorem ensures_find (request : PackageRequest) : Ensures (i.find n request) fun result =>
    ∀ p, result = .ok p → ∀ m ∈ p.modules, i.layout.Knows m.module := by
  rw [find]
  refine Ensures.bind (P := fun _ => True) (fun _ => trivial) fun found _ => ?_
  cases found with
  | none => exact .pure nofun
  | some r =>
      refine (r.ensures_version n _ _ _).bind fun version hversion => ?_
      cases version with
      | error e => exact .pure nofun
      | ok version =>
          refine Ensures.bind (P := fun _ => True) (fun _ => trivial) fun graph _ => ?_
          cases graph with
          | error e => exact .pure nofun
          | ok graph =>
              refine (i.ensures_modulesOf n r ⟨rfl, hversion version rfl⟩ graph).bind fun ms hms => .pure fun p hp => ?_
              cases hp
              exact hms

end Installer

end WebModules
