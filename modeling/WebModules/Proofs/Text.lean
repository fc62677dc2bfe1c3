import Mathlib.Data.List.DropRight
import WebModules.Text

/-!
What texts are cut into.
-/

namespace WebModules.Text

theorem splitLast?_eq_some {c : Char} {cs before after : List Char}
    (h : splitLast? c cs = some (before, after)) : cs = before ++ c :: after := by
  induction cs generalizing before with
  | nil => cases h
  | cons d r ih =>
      unfold splitLast? at h
      cases hr : splitLast? c r with
      | some found =>
          obtain ⟨b, a⟩ := found
          simp only [hr, Option.some.injEq, Prod.mk.injEq] at h
          obtain ⟨rfl, rfl⟩ := h
          rw [ih hr, List.cons_append]
      | none =>
          simp only [hr] at h
          split at h
          · rename_i hd
            cases h
            rw [hd, List.nil_append]
          · cases h

theorem splitLast?_ne_none {c : Char} {cs : List Char} (h : c ∈ cs) : splitLast? c cs ≠ none := by
  induction cs with
  | nil => cases h
  | cons d r ih =>
      unfold splitLast?
      cases hr : splitLast? c r with
      | some found => simp
      | none =>
          rcases List.mem_cons.1 h with rfl | h
          · simp
          · exact absurd hr (ih h)

theorem splitFirst?_eq_some {c : Char} {cs before after : List Char}
    (h : splitFirst? c cs = some (before, after)) : c ∉ before ∧ cs = before ++ c :: after := by
  induction cs generalizing before with
  | nil => cases h
  | cons d r ih =>
      rw [splitFirst?] at h
      split at h
      · rename_i hd
        cases h
        exact ⟨by simp, by rw [hd, List.nil_append]⟩
      · rename_i hd
        obtain ⟨⟨inner, rest⟩, hr, heq⟩ := Option.map_eq_some_iff.1 h
        cases heq
        obtain ⟨hnot, rfl⟩ := ih hr
        exact ⟨List.mem_cons.not.2 (not_or.2 ⟨Ne.symm hd, hnot⟩), rfl⟩

theorem notMem_of_splitFirst?_eq_none {c : Char} {cs : List Char} (h : splitFirst? c cs = none) : c ∉ cs := by
  induction cs with
  | nil => simp
  | cons d r ih =>
      rw [splitFirst?] at h
      split at h
      · cases h
      · rename_i hd
        exact List.mem_cons.not.2 (not_or.2 ⟨Ne.symm hd, ih (Option.map_eq_none_iff.1 h)⟩)

/-- The parts of a text hold nothing that it is split at. -/
theorem notMem_of_mem_split {c : Char} {cs part : List Char} (h : part ∈ split c cs) : c ∉ part := by
  induction cs generalizing part with
  | nil =>
      rw [List.mem_singleton.1 h]
      simp
  | cons d r ih =>
      unfold split at h
      split at h
      · rcases List.mem_cons.1 h with rfl | h
        · simp
        · exact ih h
      · rename_i hd
        split at h
        · rename_i first parts hparts
          rcases List.mem_cons.1 h with rfl | h
          · rw [List.mem_cons, not_or]
            exact ⟨Ne.symm hd, ih (by simp [hparts])⟩
          · exact ih (by simp [hparts, h])
        · rw [List.mem_singleton.1 h]
          simpa using Ne.symm hd

theorem split_ne_nil (c : Char) (cs : List Char) : split c cs ≠ [] := by
  cases cs with
  | nil => simp [split]
  | cons d cs =>
      rw [split]
      split
      · simp
      · split <;> simp

theorem split_append_cons (c : Char) (before after : List Char) :
    split c (before ++ c :: after) = split c before ++ split c after := by
  induction before with
  | nil => simp [split]
  | cons d before ih =>
      rw [List.cons_append, split, split, ih]
      by_cases hd : d = c
      · simp [hd]
      · cases hb : split c before with
        | nil => exact absurd hb (split_ne_nil c before)
        | cons part parts => simp [hd]

theorem split_of_notMem {c : Char} {cs : List Char} (h : c ∉ cs) : split c cs = [cs] := by
  induction cs with
  | nil => rfl
  | cons d cs ih =>
      obtain ⟨hd, hcs⟩ := not_or.1 (List.mem_cons.not.1 h)
      rw [split, if_neg (Ne.symm hd), ih hcs]

theorem split_append {c : Char} {cs : List Char} (h : c ∉ cs) (before : List Char) :
    ∃ parts part, split c (before ++ cs) = parts ++ [part ++ cs] := by
  induction before with
  | nil =>
      refine ⟨[], [], ?_⟩
      induction cs with
      | nil => rfl
      | cons d cs ih =>
          obtain ⟨hd, hcs⟩ := not_or.1 (List.mem_cons.not.1 h)
          have hrest := ih hcs
          simp only [List.nil_append] at hrest ⊢
          rw [split, if_neg (Ne.symm hd), hrest]
  | cons d before ih =>
      obtain ⟨parts, part, hrest⟩ := ih
      by_cases hd : d = c
      · exact ⟨[] :: parts, part, by rw [List.cons_append, split, if_pos hd, hrest, List.cons_append]⟩
      · rw [List.cons_append, split, if_neg hd, hrest]
        cases parts with
        | nil => exact ⟨[], d :: part, rfl⟩
        | cons first parts => exact ⟨(d :: first) :: parts, part, rfl⟩

/-! Blanks at the ends -/

theorem trimEnd_eq_rdropWhile (p : Char → Bool) (cs : List Char) : trimEnd p cs = cs.rdropWhile p := rfl

theorem trimEnd_eq_self_iff {p : Char → Bool} {cs : List Char} :
    trimEnd p cs = cs ↔ ∀ c ∈ cs.getLast?, p c = false := by
  rw [trimEnd_eq_rdropWhile, List.rdropWhile_eq_self_iff]
  constructor
  · intro h c hc
    obtain ⟨hne, rfl⟩ := List.mem_getLast?_eq_getLast hc
    exact Bool.not_eq_true _ ▸ h hne
  · intro h hne
    simp [h _ (List.getLast?_eq_getLast_of_ne_nil hne)]

theorem trimStart_eq_self {p : Char → Bool} {cs : List Char} (h : ∀ c ∈ cs.head?, p c = false) :
    trimStart p cs = cs := by
  cases cs with
  | nil => rfl
  | cons c cs => rw [trimStart, List.dropWhile_cons, if_neg (by simp [h c rfl])]

theorem trim_front (p : Char → Bool) (cs : List Char) : trim p cs <+: trimStart p cs := List.rdropWhile_prefix p _

theorem head_trim_of_front {p : Char → Bool} {cs front : List Char} (h : front <+: trim p cs) :
    ∀ c ∈ front.head?, p c = false := by
  intro c hc
  obtain ⟨rest, hrest⟩ := h.trans (trim_front p cs)
  have hhead : (trimStart p cs).head? = some c := by
    rw [← hrest, List.head?_append, Option.mem_def.1 hc]
    rfl
  have hdrop := List.head?_dropWhile_not p cs
  rw [← trimStart, hhead] at hdrop
  simpa using hdrop

theorem trim_trim (p : Char → Bool) (cs : List Char) : trim p (trim p cs) = trim p cs := by
  have hstart : trimStart p (trim p cs) = trim p cs := trimStart_eq_self (head_trim_of_front (List.prefix_refl _))
  rw [trim, hstart, trim, trimEnd_eq_rdropWhile, trimEnd_eq_rdropWhile, List.rdropWhile_idempotent]

theorem trim_sublist (p : Char → Bool) (cs : List Char) : (trim p cs).Sublist cs :=
  (trim_front p cs).sublist.trans (List.dropWhile_suffix p).sublist

theorem trim_eq_self_iff {p : Char → Bool} {cs : List Char} :
    trim p cs = cs ↔ (∀ c ∈ cs.head?, p c = false) ∧ ∀ c ∈ cs.getLast?, p c = false := by
  constructor
  · intro h
    have hfront : cs <+: trim p cs := ⟨[], by rw [List.append_nil, h]⟩
    have hstart := head_trim_of_front hfront
    rw [trim, trimStart_eq_self hstart, trimEnd_eq_self_iff] at h
    exact ⟨hstart, h⟩
  · rintro ⟨hstart, hend⟩
    rw [trim, trimStart_eq_self hstart, trimEnd_eq_self_iff]
    exact hend

theorem trim_of_forall {p : Char → Bool} {cs : List Char} (h : ∀ c ∈ cs, p c = false) : trim p cs = cs :=
  trim_eq_self_iff.2 ⟨fun c hc => h c (List.mem_of_mem_head? hc), fun c hc => h c (List.mem_of_getLast? hc)⟩

theorem length_trim_le (p : Char → Bool) (cs : List Char) : (trim p cs).length ≤ cs.length :=
  (trim_sublist p cs).length_le

theorem notMem_of_splitLast? {c : Char} {cs before after : List Char} (h : splitLast? c cs = some (before, after)) :
    c ∉ after := by
  induction cs generalizing before with
  | nil => cases h
  | cons d r ih =>
      rw [splitLast?] at h
      cases hr : splitLast? c r with
      | some found =>
          simp only [hr, Option.some.injEq, Prod.mk.injEq] at h
          exact ih (hr.trans (by rw [← h.2]))
      | none =>
          simp only [hr] at h
          split at h
          · cases h
            exact fun hmem => splitLast?_ne_none hmem hr
          · cases h

theorem splitFirst?_append {c : Char} {before : List Char} (h : c ∉ before) (after : List Char) :
    splitFirst? c (before ++ c :: after) = some (before, after) := by
  induction before with
  | nil => simp [splitFirst?]
  | cons d before ih =>
      rw [List.mem_cons, not_or] at h
      rw [List.cons_append, splitFirst?, if_neg (Ne.symm h.1), ih h.2]
      rfl

theorem splitFirst?_of_notMem {c : Char} {cs : List Char} (h : c ∉ cs) : splitFirst? c cs = none := by
  cases hs : splitFirst? c cs with
  | none => rfl
  | some found =>
      obtain ⟨-, rfl⟩ := splitFirst?_eq_some hs
      exact absurd (List.mem_append_right _ List.mem_cons_self) h

/-! Parts of paths -/

/-- Parts with a slash after each. -/
def slashed (parts : List (List Char)) : List Char := parts.flatMap (· ++ ['/'])

@[simp] theorem slashed_nil : slashed [] = [] := rfl

@[simp] theorem slashed_cons (part : List Char) (parts : List (List Char)) :
    slashed (part :: parts) = part ++ '/' :: slashed parts := by
  simp [slashed]

theorem slashed_append (parts more : List (List Char)) : slashed (parts ++ more) = slashed parts ++ slashed more :=
  List.flatMap_append

theorem split_slashed {parts : List (List Char)} (h : ∀ part ∈ parts, '/' ∉ part) (cs : List Char) :
    split '/' (slashed parts ++ cs) = parts ++ split '/' cs := by
  induction parts with
  | nil => rfl
  | cons part parts ih =>
      obtain ⟨hpart, hparts⟩ := List.forall_mem_cons.1 h
      rw [slashed_cons, List.append_assoc, List.cons_append, split_append_cons, split_of_notMem hpart,
        ih hparts]
      rfl

theorem exists_slashed (cs : List Char) :
    ∃ front last, split '/' cs = front ++ [last] ∧ cs = slashed front ++ last := by
  induction cs with
  | nil => exact ⟨[], [], rfl, rfl⟩
  | cons c cs ih =>
      obtain ⟨front, last, hsplit, hcs⟩ := ih
      by_cases hc : c = '/'
      · refine ⟨[] :: front, last, ?_, ?_⟩
        · rw [split, if_pos hc, hsplit, List.cons_append]
        · rw [hc, slashed_cons, List.nil_append, List.cons_append, ← hcs]
      · rw [split, if_neg hc, hsplit]
        cases front with
        | nil => exact ⟨[], c :: last, rfl, by rw [hcs]; rfl⟩
        | cons part front =>
            refine ⟨(c :: part) :: front, last, rfl, ?_⟩
            rw [hcs]
            simp

theorem intercalate_slash (front : List (List Char)) (last : List Char) :
    List.intercalate ['/'] (front ++ [last]) = slashed front ++ last := by
  induction front with
  | nil => simp
  | cons part front ih =>
      obtain ⟨next, rest, hrest⟩ := List.exists_cons_of_ne_nil (List.append_ne_nil_of_right_ne_nil front (List.cons_ne_nil last []))
      rw [List.cons_append, hrest, List.intercalate_cons_cons, ← hrest, ih, slashed_cons]
      simp

theorem intercalate_slash_end {parts : List (List Char)} (h : parts ≠ []) :
    List.intercalate ['/'] parts ++ ['/'] = slashed parts := by
  obtain ⟨front, last, rfl⟩ := List.eq_nil_or_concat parts |>.resolve_left h
  rw [List.concat_eq_append, intercalate_slash, slashed_append]
  simp

theorem intercalate_split (c : Char) (cs : List Char) : List.intercalate [c] (split c cs) = cs := by
  induction cs with
  | nil => rfl
  | cons d cs ih =>
      obtain ⟨part, parts, hsplit⟩ := List.exists_cons_of_ne_nil (split_ne_nil c cs)
      rw [hsplit] at ih
      by_cases hd : d = c
      · rw [split, if_pos hd, hsplit, List.intercalate_cons_cons, ih, hd]
        rfl
      · rw [split, if_neg hd, hsplit]
        cases parts with
        | nil => simpa using ih
        | cons next parts =>
            rw [List.intercalate_cons_cons] at ih ⊢
            rw [← ih]
            rfl

theorem split_notMem_append {c : Char} {before : List Char} (h : c ∉ before) (cs : List Char) :
    split c (before ++ cs) = (split c cs).modifyHead (before ++ ·) := by
  induction before with
  | nil =>
      obtain ⟨part, parts, hparts⟩ := List.exists_cons_of_ne_nil (split_ne_nil c cs)
      rw [List.nil_append, hparts, List.modifyHead_cons, List.nil_append]
  | cons d before ih =>
      obtain ⟨hd, hbefore⟩ := not_or.1 (List.mem_cons.not.1 h)
      obtain ⟨part, parts, hparts⟩ := List.exists_cons_of_ne_nil (split_ne_nil c cs)
      rw [List.cons_append, split, if_neg (Ne.symm hd), ih hbefore, hparts]
      rfl

theorem split_cons_of_ne {c d : Char} (h : d ≠ c) (cs : List Char) :
    ∃ part parts, split c (d :: cs) = (d :: part) :: parts := by
  obtain ⟨part, parts, hsplit⟩ := List.exists_cons_of_ne_nil (split_ne_nil c cs)
  exact ⟨part, parts, by rw [split, if_neg h, hsplit]⟩

theorem head?_split {c : Char} {part : List Char} (h : c ∉ part) (cs : List Char) :
    (split c cs).head? = some part ↔ cs = part ∨ part ++ [c] <+: cs := by
  constructor
  · intro hhead
    cases hs : splitFirst? c cs with
    | none =>
        rw [split_of_notMem (notMem_of_splitFirst?_eq_none hs), List.head?_cons, Option.some.injEq] at hhead
        exact .inl hhead
    | some found =>
        obtain ⟨before, after⟩ := found
        obtain ⟨hnot, rfl⟩ := splitFirst?_eq_some hs
        rw [split_append_cons, split_of_notMem hnot, List.singleton_append, List.head?_cons, Option.some.injEq] at hhead
        exact .inr ⟨after, by rw [← hhead, List.append_assoc, List.singleton_append]⟩
  · rintro (rfl | ⟨after, rfl⟩)
    · rw [split_of_notMem h, List.head?_cons]
    · rw [List.append_assoc, List.singleton_append, split_append_cons, split_of_notMem h, List.singleton_append,
        List.head?_cons]

theorem splitLast?_of_notMem {c : Char} {cs : List Char} (h : c ∉ cs) : splitLast? c cs = none := by
  cases hs : splitLast? c cs with
  | none => rfl
  | some found => exact absurd (by rw [splitLast?_eq_some hs]; simp) h

theorem splitLast?_append {c : Char} {after : List Char} (h : c ∉ after) (before : List Char) :
    splitLast? c (before ++ c :: after) = some (before, after) := by
  induction before with
  | nil => rw [List.nil_append, splitLast?, splitLast?_of_notMem h, if_pos rfl]
  | cons d before ih => rw [List.cons_append, splitLast?, ih]

end WebModules.Text
