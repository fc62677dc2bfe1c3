import WebModules.FileTree
import WebModules.Proofs.Basic

/-!
What stays in a tree when a file is written or directories are made.
-/

namespace WebModules.FileTree

variable {t t' t'' : FileTree}

theorem lookup_replaced_of_ne {names other : List String} (h : other ≠ names) (node : FileNode)
    (nodes : List (List String × FileNode)) :
    (nodes.map fun n => if n.1 = names then (names, node) else n).lookup other = nodes.lookup other := by
  induction nodes with
  | nil => rfl
  | cons n nodes ih =>
      obtain ⟨key, old⟩ := n
      by_cases hk : key = names
      · subst hk
        have hother : (other == key) = false := by simpa using h
        simp [List.lookup_cons, hother, ih]
      · simp [List.lookup_cons, hk, ih]

theorem lookup_replaced_self {names : List String} (node : FileNode) {nodes : List (List String × FileNode)}
    (h : nodes.any fun n => n.1 == names) :
    (nodes.map fun n => if n.1 = names then (names, node) else n).lookup names = some node := by
  induction nodes with
  | nil => simp at h
  | cons n nodes ih =>
      obtain ⟨key, old⟩ := n
      by_cases hk : key = names
      · simp [hk]
      · have htail : nodes.any fun n => n.1 == names := by simpa [hk] using h
        have hnames : (names == key) = false := beq_eq_false_iff_ne.2 (Ne.symm hk)
        simp [List.lookup_cons, hk, hnames, ih htail]

theorem put_put (t : FileTree) (names : List String) (first second : FileNode) :
    (t.put names first).put names second = t.put names second := by
  have hreplaced (nodes : List (List String × FileNode)) :
      (nodes.map fun n => if n.1 = names then (names, first) else n).map
        (fun n => if n.1 = names then (names, second) else n) =
          nodes.map fun n => if n.1 = names then (names, second) else n := by
    rw [List.map_map]
    refine List.map_congr_left fun n _ => ?_
    by_cases hn : n.1 = names <;> simp [hn]
  by_cases h : t.nodes.any fun n => n.1 == names
  · have hany : (t.put names first).nodes.any fun n => n.1 == names := by
      obtain ⟨n, hmem, hn⟩ := List.any_eq_true.1 h
      rw [put, if_pos h, List.any_eq_true]
      exact ⟨_, List.mem_map_of_mem hmem, by simp [beq_iff_eq.1 hn]⟩
    rw [put, if_pos hany, put, if_pos h, put, if_pos h, hreplaced]
  · have hother : t.nodes.map (fun n => if n.1 = names then (names, second) else n) = t.nodes := by
      refine (List.map_congr_left fun n hmem => if_neg fun hn => h ?_).trans (List.map_id' _)
      exact List.any_eq_true.2 ⟨n, hmem, beq_iff_eq.2 hn⟩
    have hany : (t.put names first).nodes.any fun n => n.1 == names := by
      rw [put, if_neg h]
      simp
    rw [put, if_pos hany, put, if_neg h, put, if_neg h, List.map_append, hother]
    simp

theorem node?_put {names : List String} (hn : names ≠ []) (node : FileNode) (other : List String) :
    (t.put names node).node? other = if other = names then some node else t.node? other := by
  unfold node? put
  by_cases ho : other = []
  · simp [ho, hn.symm]
  · have hempty : other.isEmpty = false := by simpa using ho
    simp only [hempty, Bool.false_eq_true, if_false]
    by_cases h : t.nodes.any fun n => n.1 == names
    · rw [if_pos h]
      by_cases hon : other = names
      · rw [hon, lookup_replaced_self node h, if_pos rfl]
      · rw [lookup_replaced_of_ne hon, if_neg hon]
    · rw [if_neg h, List.lookup_append]
      by_cases hon : other = names
      · subst hon
        have hnone : t.nodes.lookup other = none := List.lookup_eq_none_iff.2 fun n hmem =>
          bne_iff_ne.2 fun heq => h (List.any_eq_true.2 ⟨n, hmem, beq_iff_eq.2 heq.symm⟩)
        simp [hnone]
      · have hbeq : (other == names) = false := beq_eq_false_iff_ne.2 hon
        simp [List.lookup_cons, hbeq, hon]

/-- All directories stay, and so does every file but those at certain places. -/
structure Keeps (changed : List String → Prop) (t t' : FileTree) : Prop where
  directory : ∀ names, t.node? names = some .directory → t'.node? names = some .directory
  file : ∀ names text, ¬ changed names → t.node? names = some (.file text) →
    t'.node? names = some (.file text)

namespace Keeps

variable {changed : List String → Prop}

theorem refl (changed : List String → Prop) (t : FileTree) : Keeps changed t t :=
  ⟨fun _ h => h, fun _ _ _ h => h⟩

theorem trans (h : Keeps changed t t') (h' : Keeps changed t' t'') : Keeps changed t t'' :=
  ⟨fun names hd => h'.directory names (h.directory names hd),
    fun names text hn hf => h'.file names text hn (h.file names text hn hf)⟩

theorem mono {more : List String → Prop} (h : Keeps changed t t') (hm : ∀ names, changed names → more names) :
    Keeps more t t' :=
  ⟨h.directory, fun names text hn hf => h.file names text (fun hc => hn (hm names hc)) hf⟩

theorem enter (h : Keeps changed t t') {names directory parts : List String}
    (he : t.enter names parts = .ok directory) : t'.enter names parts = .ok directory := by
  induction parts generalizing names with
  | nil => exact he
  | cons part parts ih =>
      unfold FileTree.enter at he ⊢
      by_cases hdot : part = "."
      · rw [if_pos hdot] at he ⊢
        exact ih he
      by_cases hdots : part = ".."
      · rw [if_neg hdot, if_pos hdots] at he ⊢
        exact ih he
      rw [if_neg hdot, if_neg hdots] at he ⊢
      cases hnode : t.node? (names ++ [part]) with
      | none =>
          rw [hnode] at he
          cases he
      | some node =>
          rw [hnode] at he
          cases node with
          | file text => cases he
          | directory =>
              rw [h.directory _ hnode]
              exact ih he

end Keeps

theorem keeps_put {names : List String} (hn : names ≠ []) {node : FileNode}
    (hd : t.node? names ≠ some .directory) : Keeps (· = names) t (t.put names node) := by
  refine ⟨fun other ho => ?_, fun other text hne ho => ?_⟩
  · rw [node?_put hn, if_neg, ho]
    rintro rfl
    exact hd ho
  · rw [node?_put hn, if_neg hne, ho]

/-- The last part of a path. -/
def lastPart? (path : String) : Option String := (parts path).getLast?

/-- The names that a path to a file stands for. -/
structure Names (t : FileTree) (path : String) (directory : List String) (last : String) : Prop where
  ends : lastPart? path = some last
  named : last ≠ "." ∧ last ≠ ".."
  entered : t.enter [] (parts path).dropLast = .ok directory
  slash : path.toList.getLast? ≠ some '/'

theorem Names.keep {path last : String} {directory : List String} {changed : List String → Prop}
    (h : Names t path directory last) (hk : Keeps changed t t') : Names t' path directory last :=
  ⟨h.ends, h.named, hk.enter h.entered, h.slash⟩

theorem Names.locate {path last : String} {directory : List String} (h : Names t path directory last) :
    t.locate path = .ok ⟨directory, some last, false⟩ := by
  have hlast : (parts path).getLast? = some last := h.ends
  have hdots : ¬ (last = "." ∨ last = "..") := not_or.2 h.named
  have hslash : decide (path.toList.getLast? = some '/') = false := decide_eq_false h.slash
  unfold FileTree.locate
  dsimp only
  rw [hslash, hlast]
  simp only [hdots, if_false, h.entered]
  rfl

theorem locate_eq_ok {path : String} {place : Place} (h : t.locate path = .ok place) {last : String}
    (hn : place.name = some last) (hs : place.slash = false) : Names t path place.directory last := by
  rw [locate] at h
  split at h
  · cases h
    cases hn
  · rename_i name hlast
    split at h
    · obtain ⟨directory, -, hplace⟩ := bind_eq_ok h
      cases hplace
      cases hn
    · rename_i hdots
      obtain ⟨directory, hentered, hplace⟩ := bind_eq_ok h
      cases hplace
      cases hn
      exact ⟨hlast, not_or.1 hdots, hentered, of_decide_eq_false hs⟩

theorem find_eq_file {path text : String} {names : List String} (h : t.find path = .ok (names, .file text)) :
    ∃ directory last, Names t path directory last ∧ names = directory ++ [last] ∧
      t.node? names = some (.file text) := by
  obtain ⟨⟨directory, name, slash⟩, hlocate, h⟩ := bind_eq_ok h
  cases name with
  | none => cases h
  | some last =>
      dsimp only at h
      split at h
      · cases h
      · rename_i found hnode
        cases slash with
        | true => cases h
        | false =>
            cases h
            exact ⟨directory, last, locate_eq_ok hlocate rfl rfl, rfl, hnode⟩
      · cases h

theorem read_eq_ok_iff {path text : String} : t.read path = .ok text ↔
    ∃ directory last, Names t path directory last ∧ t.node? (directory ++ [last]) = some (.file text) := by
  constructor
  · intro h
    obtain ⟨⟨names, node⟩, hfind, h⟩ := bind_eq_ok h
    cases node with
    | directory => cases h
    | file found =>
        cases h
        obtain ⟨directory, last, hnames, rfl, hnode⟩ := find_eq_file hfind
        exact ⟨directory, last, hnames, hnode⟩
  · rintro ⟨directory, last, hn, hnode⟩
    simp [FileTree.read, FileTree.find, hn.locate, hnode, bind, Except.bind, pure, Except.pure]

theorem write_eq_ok {path text : String} (h : t.write path text = .ok t') :
    ∃ directory last, Names t path directory last ∧ t.node? (directory ++ [last]) ≠ some .directory ∧
      t' = t.put (directory ++ [last]) (.file text) := by
  obtain ⟨⟨directory, name, slash⟩, hlocate, h⟩ := bind_eq_ok h
  cases name with
  | none => cases h
  | some last =>
      dsimp only at h
      split at h
      · cases h
      · rename_i hplain
        obtain ⟨hslash, hnode⟩ := not_or.1 hplain
        cases h
        exact ⟨directory, last, locate_eq_ok hlocate rfl (by simpa using hslash), hnode, rfl⟩

theorem read_of_write {path text : String} (h : t.write path text = .ok t') : t'.read path = .ok text := by
  obtain ⟨directory, last, hn, hnode, rfl⟩ := write_eq_ok h
  have hne : directory ++ [last] ≠ [] := by simp
  exact read_eq_ok_iff.2 ⟨directory, last, hn.keep (keeps_put hne hnode), by rw [node?_put hne, if_pos rfl]⟩

/-- Whether names end in the last part of a path. -/
def EndsIn (path : String) (names : List String) : Prop := names.getLast? = lastPart? path

theorem keeps_write {path text : String} (h : t.write path text = .ok t') :
    Keeps (EndsIn path) t t' := by
  obtain ⟨directory, last, hn, hnode, rfl⟩ := write_eq_ok h
  refine (keeps_put (by simp) hnode).mono ?_
  rintro names rfl
  rw [EndsIn, List.getLast?_concat, hn.ends]

theorem Keeps.read {path other text : String} (h : Keeps (EndsIn other) t t')
    (hne : lastPart? path ≠ lastPart? other) (hr : t.read path = .ok text) : t'.read path = .ok text := by
  obtain ⟨directory, last, hn, hnode⟩ := read_eq_ok_iff.1 hr
  refine read_eq_ok_iff.2 ⟨directory, last, hn.keep h, h.file _ text ?_ hnode⟩
  rw [EndsIn, List.getLast?_concat, ← hn.ends]
  exact hne

end WebModules.FileTree
