import WebModules.Proofs.FileTree.Growth

/-!
What fails on a tree fails again: directories that could not be made cannot be made after some of those
above them have been, and whether a file can be written does not depend on the text.
-/

namespace WebModules.FileTree

open WebModules.Path

variable {t t' : FileTree} {path text : String} {names : List String} {e : FileError}

theorem isDirectory_iff : t.isDirectory path = true ↔ ∃ names, t.walk [] (Path.steps path) = .ok names := by
  rw [isDirectory, findDirectory]
  cases hf : t.find path with
  | error e =>
      refine iff_of_false (by simp [bind, Except.bind, Except.toBool]) ?_
      rintro ⟨names, hwalk⟩
      rw [find_eq_directory_iff.2 hwalk] at hf
      cases hf
  | ok found =>
      obtain ⟨names, node⟩ := found
      cases node with
      | directory => exact iff_of_true rfl ⟨names, find_eq_directory_iff.1 hf⟩
      | file text =>
          refine iff_of_false (by simp [bind, Except.bind, Except.toBool]) ?_
          rintro ⟨names, hwalk⟩
          rw [find_eq_directory_iff.2 hwalk] at hf
          cases hf

/-- A directory that has been made is there, and so is the one that it is in. -/
theorem makeDirectory_eq_ok (h : t.makeDirectory path = .ok t') :
    (∃ names, t'.walk [] (Path.steps path) = .ok names) ∧
      ∃ names, t.walk [] (Path.steps path).dropLast = .ok names := by
  rw [makeDirectory] at h
  obtain ⟨found, hfound, h⟩ := bind_eq_ok h
  rcases locate_cases hfound with ⟨steps, last, directory, hplain, hwalk, rfl⟩ | ⟨directory, -, rfl⟩
  · dsimp only at h
    split at h
    · cases h
    · rename_i hnone
      cases h
      have hne : directory ++ [last] ≠ [] := by simp
      have hkeeps : Keeps (· = directory ++ [last]) t (t.put (directory ++ [last]) .directory) :=
        keeps_put hne (by rw [hnone]; simp)
      rw [hplain.steps_eq, List.dropLast_concat, walk_append, hwalk]
      refine ⟨⟨directory ++ [last], ?_⟩, directory, rfl⟩
      simp [hkeeps.walk hwalk, bind, Except.bind, walk, node?_put hne]
  · cases h

theorem ensureDirectory_eq_ok (h : t.ensureDirectory path = (.ok (), t')) :
    (∃ names, t'.walk [] (Path.steps path) = .ok names) ∧
      ∃ names, t.walk [] (Path.steps path).dropLast = .ok names := by
  rw [ensureDirectory] at h
  split at h
  · rename_i made hmade
    obtain ⟨-, rfl⟩ := Prod.mk.inj h
    exact makeDirectory_eq_ok hmade
  · obtain ⟨hok, rfl⟩ := Prod.mk.inj h
    split at hok
    · rename_i hdirectory
      obtain ⟨names, hwalk⟩ := isDirectory_iff.1 hdirectory
      refine ⟨⟨names, hwalk⟩, ?_⟩
      cases hs : Path.steps path using List.reverseRecOn with
      | nil => exact ⟨[], rfl⟩
      | append_singleton steps last =>
          rw [hs, walk_append] at hwalk
          obtain ⟨above, habove, -⟩ := bind_eq_ok hwalk
          rw [List.dropLast_concat]
          exact ⟨above, habove⟩
    · cases hok

theorem ensureDirectory_eq_error (h : t.ensureDirectory path = (.error e, t')) : t' = t := by
  rw [ensureDirectory] at h
  split at h
  · cases h
  · exact (Prod.mk.inj h).2.symm

theorem makeDirectoriesUpTo_eq_ok {above : Nat} (h : makeDirectoriesUpTo above t path = (.ok (), t')) :
    ∃ names, t'.walk [] (Path.steps path) = .ok names := by
  cases above with
  | zero => exact (ensureDirectory_eq_ok h).1
  | succ above =>
      rw [makeDirectoriesUpTo] at h
      split at h
      · split at h
        · exact (ensureDirectory_eq_ok h).1
        · cases h
      · rename_i hensure _
        rw [h] at hensure
        exact (ensureDirectory_eq_ok hensure).1

theorem makeDirectories_eq_ok (h : t.makeDirectories path = (.ok (), t')) :
    ∃ names, t'.walk [] (Path.steps path) = .ok names :=
  makeDirectoriesUpTo_eq_ok h

/-- Directories that could not be made cannot be made in the tree that is left of the attempt, which then
stays as it is. -/
theorem makeDirectoriesUpTo_again {above : Nat} (h : makeDirectoriesUpTo above t path = (.error e, t')) :
    ∃ e', makeDirectoriesUpTo above t' path = (.error e', t') := by
  induction above generalizing t t' path e with
  | zero =>
      obtain rfl := ensureDirectory_eq_error h
      exact ⟨e, h⟩
  | succ above ih =>
      have hwhole := h
      rw [makeDirectoriesUpTo] at h
      split at h
      · rename_i first parent hensure hparent
        split at h
        · -- All directories above have been made, so nothing but the directory itself fails again.
          rename_i second hmade
          obtain rfl := ensureDirectory_eq_error h
          obtain ⟨names, hwalk⟩ := makeDirectoriesUpTo_eq_ok hmade
          refine ⟨e, ?_⟩
          rw [makeDirectoriesUpTo, h, hparent]
          cases e with
          | notFound =>
              simp only [makeDirectoriesUpTo_existing hwalk]
              exact h
          | alreadyExists | notADirectory | isADirectory | directoryNotEmpty => rfl
        · rename_i e₀ second hmade
          obtain ⟨-, rfl⟩ := Prod.mk.inj h
          obtain ⟨e', hagain⟩ := ih hmade
          cases hensured : second.ensureDirectory path with
          | mk result third =>
              cases result with
              | ok u =>
                  obtain ⟨-, names, hwalk⟩ := ensureDirectory_eq_ok hensured
                  rw [← steps_parent hparent] at hwalk
                  rw [makeDirectoriesUpTo_existing hwalk] at hagain
                  cases hagain
              | error failure =>
                  obtain rfl := ensureDirectory_eq_error hensured
                  rw [makeDirectoriesUpTo, hensured, hparent]
                  cases failure with
                  | notFound => exact ⟨e', by simp only [hagain]⟩
                  | alreadyExists | notADirectory | isADirectory | directoryNotEmpty => exact ⟨_, rfl⟩
      · rename_i hensure _
        rw [h] at hensure
        obtain rfl := ensureDirectory_eq_error hensure
        exact ⟨e, hwhole⟩

theorem makeDirectories_again (h : t.makeDirectories path = (.error e, t')) :
    ∃ e', t'.makeDirectories path = (.error e', t') :=
  makeDirectoriesUpTo_again h

theorem write_eq_error (h : t.write path text = .error e) (other : String) : t.write path other = .error e := by
  rw [write] at h ⊢
  cases hl : t.locate path with
  | error e => simpa [hl, bind, Except.bind] using h
  | ok found =>
      obtain ⟨directory, name, slash⟩ := found
      simp only [hl, bind, Except.bind] at h ⊢
      cases name with
      | none => exact h
      | some last =>
          dsimp only at h ⊢
          split at h
          · rename_i hplain
            rw [if_pos hplain]
            exact h
          · cases h

end WebModules.FileTree
