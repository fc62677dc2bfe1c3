import Mathlib.Data.List.Infix
import WebModules.Proofs.Path

/-!
The paths above a path.  Those of a path that leads down from a root by names lead down by fewer and
fewer of these, and end where the root itself is reached.
-/

namespace WebModules.Path

variable {root path parent last : String} {names : List String}

/-! Where the path above starts -/

theorem charStart_trimmed (fuel : Nat) (reversed : List Char) :
    charStart (parentChars.trimmed fuel reversed).reverse = charStart reversed.reverse := by
  fun_induction parentChars.trimmed fuel reversed with
  | case1 reversed => rfl
  | case2 fuel c rest ih =>
      rw [ih, List.reverse_cons (a := '/'), charStart_append_slash (by simp)]
  | case3 fuel rest ih =>
      rw [ih, List.reverse_cons, List.reverse_cons, List.reverse_cons, List.append_assoc, List.singleton_append]
      by_cases hrest : rest = []
      · rw [hrest]
        rfl
      · rw [charStart_append_slash (by simpa using hrest), charStart_append_slash (by simpa using hrest)]
  | case4 fuel reversed hslash hdot => rfl

/-- Without its last component a path that takes a step starts where it has started. -/
theorem charStart_parentChars {cs : List Char} (h : charSteps cs ≠ []) : charStart (parentChars cs) = charStart cs := by
  rw [parentChars, charStart_trimmed]
  have hsame := charStart_trimmed cs.length cs.reverse
  have hsteps := charSteps_trimmed cs.length cs.reverse
  generalize parentChars.trimmed cs.length cs.reverse = reversed at hsame hsteps ⊢
  rw [List.reverse_reverse] at hsame hsteps
  rw [← hsteps] at h
  rw [← hsame]
  rcases dropWhile_slash reversed with ⟨hslash, hrest⟩ | ⟨last, rest, -, hparts, hrest⟩
  · have hdot : reversed.reverse ≠ ['.'] := by
      intro hdot
      rw [hdot] at h
      exact h rfl
    rw [hrest, charStart_of_notMem hslash hdot]
    rfl
  · rw [hrest, hparts, List.reverse_append, List.reverse_cons, List.append_assoc, List.singleton_append]
    by_cases hempty : rest = []
    · rw [hempty]
      rfl
    · rw [charStart_append_slash (by simpa using hempty), charStart_append_slash (by simpa using hempty)]

theorem components_parent (h : parent? path = some parent) (hs : steps path ≠ []) :
    components parent = (components path).dropLast := by
  have hsteps := steps_parent h
  rw [parent?] at h
  split at h
  · cases h
  · cases h
  · cases h
    rw [components_eq, components_eq, hsteps, List.dropLast_append_of_ne_nil hs, start, String.toList_ofList,
      charStart_parentChars hs]
    rfl

/-! Paths below a root -/

/-- A path leads down from a root by names. -/
def Below (root : String) (names : List String) (path : String) : Prop :=
  components path = components root ++ names.map .normal

instance (root : String) (names : List String) (path : String) : Decidable (Below root names path) :=
  inferInstanceAs (Decidable (components path = components root ++ names.map .normal))

namespace Below

theorem start_steps (h : Below root names path) :
    start path = start root ∧ steps path = steps root ++ names.map .normal := by
  rw [Below, components_eq, components_eq, List.append_assoc] at h
  refine start_append_inj (fun _ => mem_steps) (fun c hc => ?_) h
  rcases List.mem_append.1 hc with hc | hc
  · exact mem_steps hc
  · obtain ⟨name, -, rfl⟩ := List.mem_map.1 hc
    simp

theorem foldl_follow_names (directory names : List String) :
    (names.map Component.normal).foldl follow directory = directory ++ names := by
  induction names generalizing directory with
  | nil => simp
  | cons name names ih => rw [List.map_cons, List.foldl_cons, ih, follow, List.append_assoc, List.singleton_append]

theorem place_eq (h : Below root names path) : place path = place root ++ names := by
  rw [place, h.start_steps.2, List.foldl_append, foldl_follow_names]
  rfl

theorem same_eq (h : Below root names path) : same path root = names.isEmpty := by
  rw [same, show components path = _ from h]
  cases names <;> simp

theorem startsWith_eq (h : Below root names path) : startsWith root path = true := by
  rw [startsWith, componentsAfter?, show components path = _ from h, strip_append]
  rfl

theorem exists_parent (h : Below root (names ++ [last]) path) :
    ∃ parent, parent? path = some parent ∧ Below root names parent := by
  have hsteps : steps path ≠ [] := by simp [h.start_steps.2]
  have hlast : (components path).getLast? = some (.normal last) := by
    rw [show components path = _ from h, List.map_append, ← List.append_assoc]
    exact List.getLast?_concat
  have hparent : parent? path = some (String.ofList (parentChars path.toList)) := by
    rw [parent?, hlast]
  refine ⟨_, hparent, ?_⟩
  rw [Below, components_parent hparent hsteps, show components path = _ from h, List.map_append, ← List.append_assoc]
  exact List.dropLast_concat

end Below

/-- A path that ends in no slash, if it is not the root, and in no dot that stands for nothing. -/
def Tidy (path : String) : Prop := Trimmed path.toList.reverse

theorem tidy_parent (h : parent? path = some parent) : Tidy parent := by
  rw [parent?] at h
  split at h
  · cases h
  · cases h
  · cases h
    rw [Tidy, String.toList_ofList, parentChars, List.reverse_reverse]
    exact trimmed_trimmed _ (Nat.le_refl _)

/-- The last part of a tidy path that takes steps is one of its steps. -/
theorem Tidy.exists_last (h : Tidy path) (hs : steps path ≠ []) :
    ∃ front part, Text.split '/' path.toList = front ++ [part] ∧ part ≠ [] ∧ part ≠ ['.'] := by
  obtain ⟨front, part, hsplit, htext⟩ := Text.exists_slashed path.toList
  have hreversed : path.toList.reverse = part.reverse ++ (Text.slashed front).reverse := by
    rw [htext, List.reverse_append]
  rcases List.eq_nil_or_concat front with rfl | ⟨front, last, rfl⟩
  · refine ⟨[], part, hsplit, ?_, ?_⟩
    all_goals
      rintro rfl
      exact hs (by rw [steps, htext]; rfl)
  · rw [List.concat_eq_append] at hsplit hreversed htext
    have hend : (Text.slashed (front ++ [last])).reverse = '/' :: (last.reverse ++ (Text.slashed front).reverse) := by
      rw [Text.slashed_append, Text.slashed_cons, Text.slashed_nil, List.reverse_append, List.reverse_append]
      rfl
    rw [hend] at hreversed
    refine ⟨_, part, hsplit, ?_, ?_⟩
    · rintro rfl
      cases hrest : last.reverse ++ (Text.slashed front).reverse with
      | nil =>
          rw [hrest] at hreversed
          exact hs (by rw [steps, List.reverse_eq_iff.1 hreversed]; rfl)
      | cons c rest => exact h.1 c rest (by rw [hreversed, hrest]; rfl)
    · rintro rfl
      exact h.2 _ hreversed

theorem length_charSteps_le (cs : List Char) : (charSteps cs).length ≤ cs.length := by
  have hcons (part : List Char) (parts : List (List Char)) :
      (innerComponents (part :: parts)).length ≤ (innerComponents parts).length + 1 ∧
        (innerComponents parts).length ≤ (innerComponents (part :: parts)).length := by
    rw [innerComponents, List.filterMap_cons]
    split
    · exact ⟨Nat.le_succ _, Nat.le_refl _⟩
    · exact ⟨Nat.le_refl _, Nat.le_succ _⟩
  induction cs with
  | nil => exact Nat.le_refl 0
  | cons c cs ih =>
      rw [charSteps] at ih ⊢
      rw [Text.split, List.length_cons]
      split
      · exact Nat.le_succ_of_le ih
      · obtain ⟨part, parts, hsplit⟩ := List.exists_cons_of_ne_nil (Text.split_ne_nil '/' cs)
        rw [hsplit] at ih ⊢
        exact (hcons _ _).1.trans (Nat.succ_le_succ ((hcons part parts).2.trans ih))

theorem Below.length_le (h : Below root names path) : names.length ≤ path.length := by
  have hsteps : (steps path).length ≤ path.length := by
    rw [← String.length_toList]
    exact length_charSteps_le _
  rw [h.start_steps.2, List.length_append, List.length_map] at hsteps
  exact (Nat.le_add_left _ _).trans hsteps

/-- At most a number of paths, each of which is above the one before it. -/
def upward : Nat → Option String → List String
  | 0, _ => []
  | _, none => []
  | above + 1, some path => path :: upward above (parent? path)

/-- The paths above a path below a root are those of all names on the way, the whole way first. -/
theorem Below.map_place_upward (h : Below root names path) :
    (upward names.length (some path)).map place = names.inits.tail.reverse.map (place root ++ ·) := by
  induction names using List.reverseRecOn generalizing path with
  | nil => rfl
  | append_singleton names last ih =>
      obtain ⟨parent, hparent, hbelow⟩ := h.exists_parent
      have hinits : names.inits ≠ [] := List.ne_nil_of_mem ((List.mem_inits [] names).2 List.nil_prefix)
      rw [List.length_append, List.length_singleton, upward, hparent, List.map_cons, ih hbelow, h.place_eq,
        List.inits_append, List.tail_append_of_ne_nil hinits, List.reverse_append]
      rfl

theorem Below.of_mem_upward (h : Below root names path) {above : String}
    (hm : above ∈ upward names.length (some path)) :
    ∃ front, front ≠ [] ∧ front <+: names ∧ place above = place root ++ front := by
  have hplace := List.mem_map_of_mem (f := place) hm
  rw [h.map_place_upward] at hplace
  obtain ⟨front, hfront, heq⟩ := List.mem_map.1 hplace
  rw [List.mem_reverse] at hfront
  refine ⟨front, ?_, (List.mem_inits front names).1 (List.mem_of_mem_tail hfront), heq.symm⟩
  cases names with
  | nil => cases hfront
  | cons name names =>
      rw [List.inits_cons, List.tail_cons] at hfront
      obtain ⟨rest, -, rfl⟩ := List.mem_map.1 hfront
      exact List.cons_ne_nil _ _

end WebModules.Path
