import WebModules.ImportMap.Basic
import WebModules.Specifier

/-!
Removing a name from an import map together with everything that only it is needed for.

A path that a name stands for makes the scope of its directory needed, and the paths in that scope
make further scopes needed.  Scopes that the remaining names do not make needed are dropped.
-/

namespace WebModules

namespace ImportMap

/-- The directory of a path, up to its last slash. -/
def parentDir (path : String) : String := String.ofList (Specifier.directory path.toList)

def directories (imports : Imports) : List String := imports.values.map parentDir

/-- The directories of the paths in the scope of a directory, if it has one. -/
def scopeDirectories (m : ImportMap) (directory : String) : List String :=
  ((m.scopes.get? directory).map directories).getD []

/-- The scopes that are not known to be needed yet. -/
def unswept (m : ImportMap) (needed : List String) : List String :=
  m.scopes.keys.filter fun directory => !needed.contains directory

/-- The number of directories of the paths in some scopes. -/
def directoryCount (m : ImportMap) (scopes : List String) : Nat :=
  scopes.foldr (fun directory count => (m.scopeDirectories directory).length + count) 0

theorem directoryCount_filter_le (m : ImportMap) (test : String → Bool) (scopes : List String) :
    m.directoryCount (scopes.filter test) ≤ m.directoryCount scopes := by
  induction scopes with
  | nil => exact Nat.le_refl _
  | cons scope scopes ih =>
    rw [List.filter_cons]
    split <;> simp only [directoryCount, List.foldr_cons] at ih ⊢ <;> omega

theorem directoryCount_filter_ne_le (m : ImportMap) {directory : String} {scopes : List String}
    (h : directory ∈ scopes) : (m.scopeDirectories directory).length +
      m.directoryCount (scopes.filter (· != directory)) ≤ m.directoryCount scopes := by
  induction scopes with
  | nil => cases h
  | cons scope scopes ih =>
    rw [List.filter_cons]
    by_cases hs : scope = directory
    · have hrest := m.directoryCount_filter_le (· != directory) scopes
      simp only [directoryCount, hs, bne_self_eq_false, Bool.false_eq_true, if_false,
        List.foldr_cons] at hrest ⊢
      omega
    · have hrest := ih ((List.mem_cons.1 h).resolve_left (Ne.symm hs))
      simp only [directoryCount, bne_iff_ne, ne_eq, hs, not_false_eq_true, if_true,
        List.foldr_cons] at hrest ⊢
      omega

theorem unswept_cons (m : ImportMap) (directory : String) (needed : List String) :
    m.unswept (directory :: needed) = (m.unswept needed).filter (· != directory) := by
  simp only [unswept, List.filter_filter, List.contains_cons, Bool.not_or, bne]

/-- Each scope is swept once. -/
theorem directoryCount_unswept_cons_le (m : ImportMap) {directory : String} {needed : List String}
    (hn : ¬ needed.contains directory = true) : (m.scopeDirectories directory).length +
      m.directoryCount (m.unswept (directory :: needed)) ≤ m.directoryCount (m.unswept needed) := by
  rw [unswept_cons]
  cases h : m.scopes.get? directory with
  | none =>
    have hle := m.directoryCount_filter_le (· != directory) (m.unswept needed)
    simpa [scopeDirectories, h] using hle
  | some imports =>
    have hmem : directory ∈ m.unswept needed :=
      List.mem_filter.2 ⟨Dictionary.mem_keys_of_get? h, by simpa using hn⟩
    exact m.directoryCount_filter_ne_le hmem

/-- Adds the directories that are pending to those that are needed, with all that their scopes make
needed in turn.  The directory that was found last is taken first. -/
def sweep (m : ImportMap) : List String → List String → List String
  | [], needed => needed
  | directory :: pending, needed =>
    if needed.contains directory then m.sweep pending needed
    else m.sweep ((m.scopeDirectories directory).reverse ++ pending) (directory :: needed)
termination_by pending needed => pending.length + m.directoryCount (m.unswept needed)
decreasing_by
  · simp only [List.length_cons]
    omega
  · rename_i hn
    have hle := m.directoryCount_unswept_cons_le hn
    simp only [List.length_append, List.length_reverse, List.length_cons]
    omega

/-- The directories whose scopes are needed. -/
def reachable (m : ImportMap) : List String := m.sweep (directories m.imports).reverse []

/-- What the removal of a name has changed. -/
structure Removal where
  /-- The path that the name stood for. -/
  imported : Option String
  /-- The directories whose scopes were dropped. -/
  scopes : List String
  /-- The paths that no name stands for any more. -/
  orphaned : List String
  /-- The paths that names still stand for. -/
  retained : List String
  /-- Whether the scope of the owner's directory is still needed. -/
  ownerRetained : Bool
  deriving DecidableEq, Repr, Inhabited

/-- The map without a name and the scopes that are not needed without it.  `owner` is the directory
of the module that the name stood for. -/
def remove (m : ImportMap) (name owner : String) : ImportMap × Removal :=
  let without : ImportMap := ⟨m.imports.erase name, m.scopes⟩
  let needed := without.reachable
  let left : ImportMap := ⟨without.imports, m.scopes.filter needed.contains⟩
  let dropped := m.scopes.keys.filter fun directory => !needed.contains directory
  let retained := left.paths
  (left, ⟨m.imports.get? name, dropped, m.paths.filter fun p => !retained.contains p, retained,
    needed.contains owner⟩)

end ImportMap

end WebModules
