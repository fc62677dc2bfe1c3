import WebModules.Proofs.Specifier

/-!
Paths without dots and empty segments.  What a path comes to depends on its segments alone, and those
in front may be followed before the others.
-/

namespace WebModules

namespace Specifier

open Text

theorem follow_dots (path : List (List Char)) : follow path ['.', '.'] = path.drop 1 := rfl

theorem follow_dot (path : List (List Char)) : follow path ['.'] = path := rfl

theorem follow_plain (path : List (List Char)) {part : List Char} (hne : part ≠ []) (hdot : part ≠ ['.'])
    (hdots : part ≠ ['.', '.']) : follow path part = part :: path := by
  rw [follow, if_neg (by simp [hne, hdot]), if_neg hdots]

theorem foldl_follow_plain (path : List (List Char)) {parts : List (List Char)}
    (h : ∀ part ∈ parts, part ≠ [] ∧ part ≠ ['.'] ∧ part ≠ ['.', '.']) :
    parts.foldl follow path = parts.reverse ++ path := by
  induction parts generalizing path with
  | nil => rfl
  | cons part parts ih =>
      obtain ⟨⟨hne, hdot, hdots⟩, hparts⟩ := List.forall_mem_cons.1 h
      rw [List.foldl_cons, follow_plain path hne hdot hdots, ih _ hparts, List.reverse_cons,
        List.append_assoc, List.singleton_append]

/-- What is left of segments that have been followed is segments that lead down. -/
theorem plain_of_mem_followed {parts : List (List Char)} {part : List Char} (h : part ∈ parts.foldl follow []) :
    part ≠ [] ∧ part ≠ ['.'] ∧ part ≠ ['.', '.'] := by
  suffices hfollowed : ∀ path : List (List Char), (∀ part ∈ path, part ≠ ['.', '.']) →
      ∀ part ∈ parts.foldl follow path, part ≠ ['.', '.'] by
    rcases mem_foldl_follow h with hpath | ⟨-, hne, hdot⟩
    · cases hpath
    · exact ⟨hne, hdot, hfollowed [] (by simp) part h⟩
  clear h
  induction parts with
  | nil => exact fun path hpath => hpath
  | cons next parts ih =>
      intro path hpath
      refine ih _ ?_
      unfold follow
      split
      · exact hpath
      · split
        · exact fun part hpart => hpath part (List.mem_of_mem_drop hpart)
        · rename_i hdots
          exact List.forall_mem_cons.2 ⟨hdots, hpath⟩

theorem notMem_of_mem_followed {parts : List (List Char)} (h : ∀ part ∈ parts, '/' ∉ part) {part : List Char}
    (hp : part ∈ parts.foldl follow []) : '/' ∉ part := by
  rcases mem_foldl_follow hp with hpath | ⟨hpart, -⟩
  · cases hpath
  · exact h part hpart

/-- Segments that have been followed are left as they are when they are followed again. -/
theorem foldl_follow_followed (parts : List (List Char)) :
    (parts.foldl follow []).reverse.foldl follow [] = parts.foldl follow [] := by
  rw [foldl_follow_plain [] fun part hpart => plain_of_mem_followed (List.mem_reverse.1 hpart),
    List.reverse_reverse, List.append_nil]

/-! Paths with a start -/

/-- A start of a path that says where the path leads from. -/
def Fixed (start : List Char) : Prop := start = ['/'] ∨ start = ['.', '/']

variable {start : List Char}

theorem Fixed.splitStart_append (h : Fixed start) (rest : List Char) : splitStart (start ++ rest) = (start, rest) := by
  rcases h with rfl | rfl <;> rfl

theorem normalizeChars_append (h : Fixed start) (rest : List Char) :
    normalizeChars (start ++ rest) = start ++ (List.intercalate ['/'] ((split '/' rest).foldl follow []).reverse
      ++ if namesDirectory rest && !((split '/' rest).foldl follow []).isEmpty then ['/'] else []) := by
  have hne : start ≠ [] := by rcases h with rfl | rfl <;> simp
  unfold normalizeChars
  rw [h.splitStart_append]
  dsimp only
  rw [List.isEmpty_reverse]
  split <;> simp [hne]

theorem split_slashed_last {front : List (List Char)} (hfront : ∀ part ∈ front, '/' ∉ part) {last : List Char}
    (h : '/' ∉ last) : split '/' (slashed front ++ last) = front ++ [last] := by
  rw [split_slashed hfront, split_of_notMem h]

/-- A path that ends with a slash or with dots names what it leads to as a directory. -/
theorem normalizeChars_directory (h : Fixed start) {front : List (List Char)} (hfront : ∀ part ∈ front, '/' ∉ part)
    {last : List Char} (hlast : last = [] ∨ last = ['.'] ∨ last = ['.', '.']) :
    normalizeChars (start ++ (slashed front ++ last)) =
      start ++ slashed ((front ++ [last]).foldl follow []).reverse := by
  have hslash : '/' ∉ last := by rcases hlast with rfl | rfl | rfl <;> decide
  rw [normalizeChars_append h, split_slashed_last hfront hslash]
  by_cases hempty : (front ++ [last]).foldl follow [] = []
  · rw [hempty]
    simp
  · have hnames : namesDirectory (slashed front ++ last) = true := by
      unfold namesDirectory
      rw [split_slashed_last hfront hslash, List.getLast?_concat]
      rcases hlast with rfl | rfl | rfl
      · cases front with
        | nil => exact absurd rfl hempty
        | cons part front => simp
      · rfl
      · rfl
    rw [hnames, Bool.true_and, if_pos (by simpa using hempty), intercalate_slash_end (by simpa using hempty)]

theorem normalizeChars_file (h : Fixed start) {front : List (List Char)} (hfront : ∀ part ∈ front, '/' ∉ part)
    {last : List Char} (hslash : '/' ∉ last) (hne : last ≠ []) (hdots : last ≠ ['.'] ∧ last ≠ ['.', '.']) :
    normalizeChars (start ++ (slashed front ++ last)) = start ++ (slashed (front.foldl follow []).reverse ++ last) := by
  have hnames : namesDirectory (slashed front ++ last) = false := by
    unfold namesDirectory
    rw [split_slashed_last hfront hslash, List.getLast?_concat]
    simp [hdots, hne]
  rw [normalizeChars_append h, split_slashed_last hfront hslash, hnames, List.foldl_append, List.foldl_cons,
    List.foldl_nil, follow_plain _ hne hdots.1 hdots.2, List.reverse_cons, intercalate_slash]
  simp

/-- What holds no dots and no empty segments stays as it is at the end of a path. -/
theorem normalizeChars_plain (h : Fixed start) {front : List (List Char)} (hfront : ∀ part ∈ front, '/' ∉ part)
    {cs : List Char} (hdots : ∀ part ∈ split '/' cs, part ≠ ['.'] ∧ part ≠ ['.', '.'])
    (hfull : ∀ part ∈ (split '/' cs).dropLast, part ≠ []) :
    normalizeChars (start ++ (slashed front ++ cs)) = start ++ (slashed (front.foldl follow []).reverse ++ cs) := by
  obtain ⟨more, last, hsplit, rfl⟩ := exists_slashed cs
  have hmem {part : List Char} (h : part ∈ more ++ [last]) : '/' ∉ part := notMem_of_mem_split (hsplit ▸ h)
  rw [hsplit] at hdots hfull
  rw [List.dropLast_concat] at hfull
  have hmore : (front ++ more).foldl follow [] = more.reverse ++ front.foldl follow [] := by
    rw [List.foldl_append]
    exact foldl_follow_plain _ fun part h => ⟨hfull part h, hdots part (List.mem_append_left _ h)⟩
  have hslash : ∀ part ∈ front ++ more, '/' ∉ part :=
    List.forall_mem_append.2 ⟨hfront, fun part h => hmem (List.mem_append_left _ h)⟩
  have hsame : slashed (front.foldl follow []).reverse ++ (slashed more ++ last)
      = slashed ((front ++ more).foldl follow []).reverse ++ last := by
    rw [hmore, List.reverse_append, List.reverse_reverse, slashed_append, List.append_assoc]
  rw [hsame, ← List.append_assoc (slashed front), ← slashed_append]
  by_cases hlast : last = []
  · rw [normalizeChars_directory h hslash (.inl hlast), hlast, List.foldl_append, List.append_nil]
    rfl
  · exact normalizeChars_file h hslash (hmem (by simp)) hlast (hdots last (by simp))

/-- Whether a path names a directory is told by the end of it. -/
theorem namesDirectory_slashed {front : List (List Char)} (hfront : ∀ part ∈ front, '/' ∉ part) {cs : List Char}
    (h : cs ≠ []) : namesDirectory (slashed front ++ cs) = namesDirectory cs := by
  have hempty : (slashed front ++ cs).isEmpty = cs.isEmpty := by
    rw [List.isEmpty_eq_false_iff.2 h, List.isEmpty_eq_false_iff.2 (List.append_ne_nil_of_right_ne_nil _ h)]
  unfold namesDirectory
  rw [split_slashed hfront, List.getLast?_append_of_ne_nil _ (split_ne_nil '/' cs), hempty]

/-- The segments in front of a path may be followed before the others. -/
theorem normalizeChars_followed (h : Fixed start) {front : List (List Char)} (hfront : ∀ part ∈ front, '/' ∉ part)
    {cs : List Char} (hne : cs ≠ []) :
    normalizeChars (start ++ (slashed (front.foldl follow []).reverse ++ cs)) =
      normalizeChars (start ++ (slashed front ++ cs)) := by
  have hfollowed : ∀ part ∈ (front.foldl follow []).reverse, '/' ∉ part :=
    fun part hpart => notMem_of_mem_followed hfront (List.mem_reverse.1 hpart)
  rw [normalizeChars_append h, normalizeChars_append h, namesDirectory_slashed hfollowed hne,
    namesDirectory_slashed hfront hne, split_slashed hfollowed, split_slashed hfront, List.foldl_append,
    List.foldl_append, foldl_follow_followed]

/-! Directories -/

theorem directory_append {last : List Char} (h : '/' ∉ last) (before : List Char) :
    directory (before ++ '/' :: last) = before ++ ['/'] := by
  rw [directory, splitLast?_append h]

theorem directory_slashed {front : List (List Char)} {last : List Char} (h : '/' ∉ last) :
    directory (slashed front ++ last) = slashed front := by
  rcases List.eq_nil_or_concat front with rfl | ⟨front, part, rfl⟩
  · rw [slashed_nil, List.nil_append, directory, splitLast?_of_notMem h]
  · have hend : slashed (front ++ [part]) = slashed front ++ part ++ ['/'] := by
      rw [slashed_append, slashed_cons, slashed_nil, List.append_assoc]
    rw [List.concat_eq_append, hend, List.append_assoc _ ['/'], List.singleton_append, directory_append h]

/-- The directory of a path with a start is that of the rest, after the start. -/
theorem Fixed.directory_append (h : Fixed start) {front : List (List Char)} {last : List Char} (hlast : '/' ∉ last) :
    directory (start ++ (slashed front ++ last)) = start ++ slashed front := by
  have hstart : ∃ first, start = slashed [first] := by
    rcases h with rfl | rfl
    · exact ⟨[], rfl⟩
    · exact ⟨['.'], rfl⟩
  obtain ⟨first, rfl⟩ := hstart
  rw [← List.append_assoc, ← slashed_append, directory_slashed hlast]

end Specifier

end WebModules
