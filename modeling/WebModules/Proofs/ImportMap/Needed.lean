import WebModules.ImportMap.Removal
import WebModules.Proofs.Dictionary

/-!
Which scopes the imports of a map need.  A sweep starts from the directories of the imports and ends
with these scopes exactly, also where scopes need each other in a circle.
-/

namespace WebModules.ImportMap

variable {m : ImportMap} {directory : String} {pending needed : List String}

/-- The directories of the paths that names stand for in all modules, and those of the paths in a
scope that is needed itself. -/
inductive Needs (m : ImportMap) : String → Prop
  | imported {name path : String} (entry : m.imports.get? name = some path) : Needs m (parentDir path)
  | inScope {directory name path : String} {scope : Imports} (needed : Needs m directory)
      (found : m.scopes.get? directory = some scope) (entry : scope.get? name = some path) :
      Needs m (parentDir path)

theorem mem_directories_iff {imports : Imports} : directory ∈ directories imports ↔
    ∃ name path, imports.get? name = some path ∧ parentDir path = directory := by
  constructor
  · intro h
    obtain ⟨path, hpath, hparent⟩ := List.mem_map.1 h
    obtain ⟨name, hname⟩ := Dictionary.mem_values_iff.1 hpath
    exact ⟨name, path, hname, hparent⟩
  · rintro ⟨name, path, hname, rfl⟩
    exact List.mem_map_of_mem (Dictionary.mem_values_iff.2 ⟨name, hname⟩)

theorem mem_scopeDirectories_iff {child : String} : child ∈ m.scopeDirectories directory ↔
    ∃ scope name path, m.scopes.get? directory = some scope ∧ scope.get? name = some path ∧
      parentDir path = child := by
  unfold scopeDirectories
  cases h : m.scopes.get? directory with
  | none => simp
  | some scope => simp [mem_directories_iff]

theorem Needs.child {child : String} (h : m.Needs directory) (hc : child ∈ m.scopeDirectories directory) :
    m.Needs child := by
  obtain ⟨scope, name, path, hscope, hentry, rfl⟩ := mem_scopeDirectories_iff.1 hc
  exact .inScope h hscope hentry

/-- What holds all through a sweep: nothing is taken that is not needed, and whatever is needed at
once, by the imports or by a scope that has been swept, is either known or pending. -/
structure Sweeping (m : ImportMap) (pending needed : List String) : Prop where
  sought : ∀ directory ∈ pending, m.Needs directory
  sound : ∀ directory ∈ needed, m.Needs directory
  imported : ∀ directory ∈ directories m.imports, directory ∈ needed ∨ directory ∈ pending
  closed : ∀ directory ∈ needed, ∀ child ∈ m.scopeDirectories directory, child ∈ needed ∨ child ∈ pending

theorem Sweeping.start (m : ImportMap) : m.Sweeping (directories m.imports).reverse [] := by
  constructor
  · intro directory h
    obtain ⟨name, path, hentry, rfl⟩ := mem_directories_iff.1 (List.mem_reverse.1 h)
    exact .imported hentry
  · intro directory h
    cases h
  · intro directory h
    exact .inr (List.mem_reverse.2 h)
  · intro directory h
    cases h

theorem Sweeping.skip (h : m.Sweeping (directory :: pending) needed) (hn : directory ∈ needed) :
    m.Sweeping pending needed := by
  have hleft (other : String) (ho : other ∈ needed ∨ other ∈ directory :: pending) :
      other ∈ needed ∨ other ∈ pending := by
    rcases ho with ho | ho
    · exact .inl ho
    · rcases List.mem_cons.1 ho with rfl | ho
      · exact .inl hn
      · exact .inr ho
  constructor
  · intro other ho
    exact h.sought other (List.mem_cons_of_mem _ ho)
  · exact h.sound
  · intro other ho
    exact hleft other (h.imported other ho)
  · intro other ho child hc
    exact hleft child (h.closed other ho child hc)

/-- A directory that is taken leaves the directories of its scope pending. -/
theorem Sweeping.take (h : m.Sweeping (directory :: pending) needed) :
    m.Sweeping ((m.scopeDirectories directory).reverse ++ pending) (directory :: needed) := by
  have hdirectory : m.Needs directory := h.sought directory List.mem_cons_self
  have hmoved (other : String) (ho : other ∈ needed ∨ other ∈ directory :: pending) :
      other ∈ directory :: needed ∨ other ∈ (m.scopeDirectories directory).reverse ++ pending := by
    rcases ho with ho | ho
    · exact .inl (List.mem_cons_of_mem _ ho)
    · rcases List.mem_cons.1 ho with rfl | ho
      · exact .inl List.mem_cons_self
      · exact .inr (List.mem_append_right _ ho)
  constructor
  · intro other ho
    rcases List.mem_append.1 ho with ho | ho
    · exact hdirectory.child (List.mem_reverse.1 ho)
    · exact h.sought other (List.mem_cons_of_mem _ ho)
  · intro other ho
    rcases List.mem_cons.1 ho with rfl | ho
    · exact hdirectory
    · exact h.sound other ho
  · intro other ho
    exact hmoved other (h.imported other ho)
  · intro other ho child hc
    rcases List.mem_cons.1 ho with rfl | ho
    · exact .inr (List.mem_append_left _ (List.mem_reverse.2 hc))
    · exact hmoved child (h.closed other ho child hc)

/-- With nothing pending, exactly what is needed is known. -/
theorem Sweeping.mem_iff (h : m.Sweeping [] needed) : directory ∈ needed ↔ m.Needs directory := by
  constructor
  · exact h.sound directory
  · intro hn
    induction hn with
    | @imported name path entry =>
        have hmem : parentDir path ∈ directories m.imports := mem_directories_iff.2 ⟨name, path, entry, rfl⟩
        exact (h.imported _ hmem).resolve_right List.not_mem_nil
    | @inScope parent name path scope _ found entry ih =>
        have hmem : parentDir path ∈ m.scopeDirectories parent :=
          mem_scopeDirectories_iff.2 ⟨scope, name, path, found, entry, rfl⟩
        exact (h.closed _ ih _ hmem).resolve_right List.not_mem_nil

theorem mem_sweep_iff (h : m.Sweeping pending needed) :
    directory ∈ m.sweep pending needed ↔ m.Needs directory := by
  fun_induction sweep m pending needed with
  | case1 needed => exact h.mem_iff
  | case2 next pending needed hknown ih => exact ih (h.skip (List.contains_iff_mem.1 hknown))
  | case3 next pending needed hnew ih => exact ih h.take

theorem mem_reachable_iff : directory ∈ m.reachable ↔ m.Needs directory :=
  mem_sweep_iff (Sweeping.start m)

end WebModules.ImportMap
