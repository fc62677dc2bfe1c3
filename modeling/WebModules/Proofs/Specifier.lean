import WebModules.Proofs.Text
import WebModules.Proofs.Url
import WebModules.Specifier

/-!
What specifiers refer to is never a path with a dot before its first slash.
-/

namespace WebModules

namespace Specifier

/-- A path that starts with a dot and a slash, and does not end there. -/
def Dotted (cs : List Char) : Prop := ∃ c r, cs = '.' :: '/' :: c :: r

theorem not_dotted_of_head {cs : List Char} (h : cs.head? ≠ some '.') : ¬ Dotted cs := by
  rintro ⟨c, r, rfl⟩
  exact h rfl

theorem directory_head {location : List Char} (hh : location.head? ≠ some '.') (hs : '/' ∈ location) :
    ∃ c r, directory location = c :: r ∧ c ≠ '.' := by
  unfold directory
  cases hsplit : Text.splitLast? '/' location with
  | none => exact absurd hsplit (Text.splitLast?_ne_none hs)
  | some found =>
      obtain ⟨before, after⟩ := found
      have hlocation := Text.splitLast?_eq_some hsplit
      cases before with
      | nil => exact ⟨'/', [], rfl, by decide⟩
      | cons c r =>
          refine ⟨c, r ++ ['/'], rfl, ?_⟩
          rintro rfl
          exact hh (by rw [hlocation]; rfl)

theorem mem_foldl_follow {parts path : List (List Char)} {part : List Char}
    (h : part ∈ parts.foldl follow path) : part ∈ path ∨ part ∈ parts ∧ part ≠ [] ∧ part ≠ ['.'] := by
  induction parts generalizing path with
  | nil => exact .inl h
  | cons next parts ih =>
      rcases ih h with h | ⟨h, hne⟩
      · unfold follow at h
        split at h
        · exact .inl h
        · rename_i hplain
          split at h
          · exact .inl (List.mem_of_mem_drop h)
          · rcases List.mem_cons.1 h with rfl | h
            · exact .inr ⟨List.mem_cons_self, by simpa using hplain⟩
            · exact .inl h
      · exact .inr ⟨List.mem_cons_of_mem _ h, hne⟩

theorem not_dotted_append {part : List Char} (hn : part ≠ []) (hdot : part ≠ ['.']) (hs : '/' ∉ part)
    (rest : List Char) : ¬ Dotted (part ++ rest) := by
  rintro ⟨c, r, h⟩
  match part, hn with
  | [d], _ =>
    rw [List.cons_append] at h
    exact hdot (by rw [(List.cons.inj h).1])
  | d :: e :: part, _ =>
    rw [List.cons_append, List.cons_append] at h
    exact hs (by simp [(List.cons.inj (List.cons.inj h).2).1])

theorem splitStart_eq {path : List Char} (h : path.head? ≠ some '.') :
    (∃ rest, splitStart path = (['/'], rest)) ∨ splitStart path = ([], path) := by
  unfold splitStart
  split
  · rename_i rest
    exact .inl ⟨rest, rfl⟩
  · exact absurd rfl h
  · exact .inr rfl

theorem not_dotted_normalizeChars {path : List Char} (h : path.head? ≠ some '.') :
    ¬ Dotted (normalizeChars path) := by
  have hfollowed (rest : List Char) (part : List Char)
      (hp : part ∈ ((Text.split '/' rest).foldl follow []).reverse) : part ≠ [] ∧ part ≠ ['.'] ∧ '/' ∉ part := by
    rcases mem_foldl_follow (List.mem_reverse.1 hp) with hp | ⟨hp, hn, hdot⟩
    · cases hp
    · exact ⟨hn, hdot, Text.notMem_of_mem_split hp⟩
  unfold normalizeChars
  rcases splitStart_eq h with ⟨rest, hrest⟩ | hrest
  · rw [hrest]
    dsimp only
    rw [if_neg]
    · exact not_dotted_of_head (by split <;> simp)
    · split <;> simp
  · rw [hrest]
    dsimp only
    generalize hsegments : ((Text.split '/' path).foldl follow []).reverse = segments
    cases segments with
    | nil =>
        rintro ⟨c, r, hdotted⟩
        simp at hdotted
    | cons part parts =>
        obtain ⟨hn, hdot, hs⟩ := hfollowed path part (by rw [hsegments]; exact List.mem_cons_self)
        have hjoined : ∃ rest, List.intercalate ['/'] (part :: parts) = part ++ rest := by
          cases parts with
          | nil => exact ⟨[], by simp⟩
          | cons next parts => exact ⟨_, by rw [List.intercalate_cons_cons, List.append_assoc]⟩
        obtain ⟨rest, hrest⟩ := hjoined
        rw [hrest, if_neg]
        · split
          · rw [List.nil_append, List.append_assoc]
            exact not_dotted_append hn hdot hs _
          · exact not_dotted_append hn hdot hs _
        · split <;> simp [hn]

/-- What a specifier refers to in a module that was served from somewhere is no dotted path. -/
theorem not_dotted_join {location : String} (hh : location.toList.head? ≠ some '.')
    (hs : '/' ∈ location.toList) (specifier : String) : ¬ Dotted (join location specifier).toList := by
  unfold join
  split
  · rename_i hrelative
    rintro ⟨c, r, h⟩
    simp [isRelative, h] at hrelative
  · split
    · rename_i u hu
      cases hbase : Url.parse location with
      | error e => simp [hbase, Except.bind] at hu
      | ok base =>
          rw [hbase] at hu
          exact not_dotted_of_head ((Url.regular_parse hbase).join hu).head_text
    · rw [String.toList_ofList]
      obtain ⟨c, r, hdirectory, hc⟩ := directory_head hh hs
      refine not_dotted_normalizeChars ?_
      rw [hdirectory, List.cons_append]
      simpa using hc

end Specifier

end WebModules
