import WebModules.Proofs.Specifier.Normal

/-!
What a path is normalised to: its start, and what is left of its segments when they are followed from left to right.  A
path that is read again has the same start and the same segments.
-/

namespace WebModules

namespace Specifier

open Text

/-- What a path begins with, a slash, or a dot and a slash, or nothing if it has neither, and the rest of it. -/
def Begins (path start rest : List Char) : Prop :=
  path = start ++ rest ∧ (Fixed start ∨ start = [] ∧ ∀ front, Fixed front → ¬front <+: path)

/-- Whether a segment is a name, neither empty nor one of the dots. -/
def LeadsDown (segment : List Char) : Prop := segment ≠ [] ∧ segment ≠ ['.'] ∧ segment ≠ ['.', '.']

/-- What is left when segments are followed from left to right, the last one at the end.  An empty segment and a dot
lead nowhere, and two dots lead back unless nothing is left. -/
inductive Follows : List (List Char) → List (List Char) → List (List Char) → Prop
  | done (left : List (List Char)) : Follows left [] left
  | stay {left segments last : List (List Char)} {segment : List Char} (h : segment = [] ∨ segment = ['.'])
      (rest : Follows left segments last) : Follows left (segment :: segments) last
  | back {left segments last : List (List Char)} {top : List Char} (rest : Follows left segments last) :
      Follows (left ++ [top]) (['.', '.'] :: segments) last
  | clamp {segments last : List (List Char)} (rest : Follows [] segments last) :
      Follows [] (['.', '.'] :: segments) last
  | down {left segments last : List (List Char)} {segment : List Char}
      (h : LeadsDown segment) (rest : Follows (left ++ [segment]) segments last) :
      Follows left (segment :: segments) last

/-- Whether a path ends with a slash, or its last segment is one of the dots. -/
def EndsInDirectory (path : List Char) : Prop :=
  path.getLast? = some '/' ∨ (split '/' path).getLast? = some ['.'] ∨ (split '/' path).getLast? = some ['.', '.']

instance (path : List Char) : Decidable (EndsInDirectory path) :=
  inferInstanceAs (Decidable (_ ∨ _ ∨ _))

/-- The segments of a path.  Nothing follows a slash at the end of it. -/
def segmentsIn (path : List Char) : List (List Char) :=
  if (split '/' path).getLast? = some [] then (split '/' path).dropLast else split '/' path

/-- Segments after a start, with a slash at the end of a directory. -/
def written (start : List Char) (segments : List (List Char)) (directory : Bool) : List Char :=
  start ++ (List.intercalate ['/'] segments ++ if directory && !segments.isEmpty then ['/'] else [])

/-- A path, or a dot and a slash in place of an empty one. -/
def orHere (path : List Char) : List Char := if path = [] then ['.', '/'] else path

/-- The start of what a path is normalised to. -/
def startWith (start : List Char) (left : List (List Char)) : List Char :=
  if start = [] ∧ left = [] then ['.', '/'] else start

/-! Starts -/

theorem exists_begins (path : List Char) : ∃ start rest, Begins path start rest := by
  by_cases h : ∃ start, Fixed start ∧ start <+: path
  · obtain ⟨start, hfixed, rest, hpath⟩ := h
    exact ⟨start, rest, hpath.symm, .inl hfixed⟩
  · exact ⟨[], path, rfl, .inr ⟨rfl, fun start hfixed hfront => h ⟨start, hfixed, hfront⟩⟩⟩

theorem Begins.splitStart_eq {path start rest : List Char} (h : Begins path start rest) :
    splitStart path = (start, rest) := by
  obtain ⟨rfl, hfixed | ⟨rfl, hnone⟩⟩ := h
  · exact hfixed.splitStart_append rest
  · rw [List.nil_append] at hnone ⊢
    unfold splitStart
    split
    · exact absurd ⟨_, rfl⟩ (hnone ['/'] (.inl rfl))
    · exact absurd ⟨_, rfl⟩ (hnone ['.', '/'] (.inr rfl))
    · rfl

/-! Segments that are followed -/

theorem follow_stay (path : List (List Char)) {part : List Char} (h : part = [] ∨ part = ['.']) :
    follow path part = path :=
  if_pos (by simpa using h)

theorem Follows.eq_foldl {left segments last : List (List Char)} (h : Follows left segments last) :
    last = (segments.foldl follow left.reverse).reverse := by
  induction h with
  | done left => exact left.reverse_reverse.symm
  | stay h rest ih => rw [ih, List.foldl_cons, follow_stay _ h]
  | back rest ih =>
      rw [ih, List.foldl_cons, follow_dots, List.reverse_append]
      rfl
  | clamp rest ih =>
      rw [ih]
      rfl
  | down h rest ih => rw [ih, List.foldl_cons, follow_plain _ h.1 h.2.1 h.2.2, List.reverse_concat]

theorem exists_follows (left segments : List (List Char)) : ∃ last, Follows left segments last := by
  induction segments generalizing left with
  | nil => exact ⟨left, .done left⟩
  | cons segment segments ih =>
      -- every segment is of one of the kinds that `Follows` tells apart
      by_cases hstay : segment = [] ∨ segment = ['.']
      · obtain ⟨last, hlast⟩ := ih left
        exact ⟨last, .stay hstay hlast⟩
      · obtain ⟨hne, hdot⟩ := not_or.1 hstay
        by_cases hdots : segment = ['.', '.']
        · subst hdots
          rcases List.eq_nil_or_concat left with rfl | ⟨before, top, rfl⟩
          · obtain ⟨last, hlast⟩ := ih []
            exact ⟨last, .clamp hlast⟩
          · obtain ⟨last, hlast⟩ := ih before
            exact ⟨last, List.concat_eq_append ▸ .back hlast⟩
        · obtain ⟨last, hlast⟩ := ih (left ++ [segment])
          exact ⟨last, .down ⟨hne, hdot, hdots⟩ hlast⟩

theorem follows_iff {segments last : List (List Char)} :
    Follows [] segments last ↔ last = (segments.foldl follow []).reverse := by
  refine ⟨Follows.eq_foldl, fun hlast => ?_⟩
  obtain ⟨other, hother⟩ := exists_follows [] segments
  rwa [hlast.trans hother.eq_foldl.symm]

/-! Directories -/

theorem namesDirectory_iff (path : List Char) : namesDirectory path = true ↔ EndsInDirectory path := by
  obtain ⟨front, last, hsplit, hpath⟩ := exists_slashed path
  have hslash : '/' ∉ last := notMem_of_mem_split (hsplit ▸ List.mem_append_right front List.mem_cons_self)
  have hend : path.getLast? = some '/' ↔ last = [] ∧ path ≠ [] := by
    constructor
    · intro hlast
      refine ⟨?_, by rintro rfl; cases hlast⟩
      by_contra hne
      rw [hpath, List.getLast?_append_of_ne_nil _ hne] at hlast
      exact hslash (List.mem_of_getLast? hlast)
    · rintro ⟨rfl, hne⟩
      have hfront : front ≠ [] := by
        rintro rfl
        exact hne hpath
      rw [hpath, List.append_nil, ← intercalate_slash_end hfront, List.getLast?_concat]
  unfold namesDirectory EndsInDirectory
  rw [hend, hsplit, List.getLast?_concat]
  simp only [Bool.or_eq_true, Bool.and_eq_true, Bool.not_eq_true', decide_eq_true_eq, List.isEmpty_iff,
    List.isEmpty_eq_false_iff, Option.some.injEq]
  tauto

theorem Begins.endsInDirectory_iff {path start rest : List Char} (h : Begins path start rest) (hne : rest ≠ []) :
    EndsInDirectory path ↔ EndsInDirectory rest := by
  have hstart : ∃ front : List (List Char), (∀ segment ∈ front, '/' ∉ segment) ∧ start = slashed front := by
    obtain ⟨-, (rfl | rfl) | ⟨rfl, -⟩⟩ := h
    · exact ⟨[[]], by simp, rfl⟩
    · exact ⟨[['.']], by simp, rfl⟩
    · exact ⟨[], by simp, rfl⟩
  obtain ⟨front, hfront, rfl⟩ := hstart
  unfold EndsInDirectory
  rw [h.1, List.getLast?_append_of_ne_nil _ hne, split_slashed hfront,
    List.getLast?_append_of_ne_nil _ (split_ne_nil '/' rest)]

/-! Paths that are written -/

theorem Begins.normalizeChars_eq {path start rest : List Char} (h : Begins path start rest) :
    normalizeChars path =
      orHere (written start ((split '/' rest).foldl follow []).reverse (namesDirectory rest)) := by
  unfold normalizeChars orHere written
  rw [h.splitStart_eq]
  dsimp only
  split <;> simp only [List.isEmpty_iff, List.append_assoc, List.append_nil]

section

variable {start : List Char} {segments : List (List Char)} (hslash : ∀ segment ∈ segments, '/' ∉ segment)

include hslash

theorem split_written (directory : Bool) :
    split '/' (written [] segments directory) =
      segments ++ if directory || segments.isEmpty then [[]] else [] := by
  rcases List.eq_nil_or_concat segments with rfl | ⟨front, last, rfl⟩
  · simp [written, split]
  · rw [List.concat_eq_append] at hslash ⊢
    obtain ⟨hfront, hlast⟩ := List.forall_mem_append.1 hslash
    cases directory with
    | true =>
        have htext : written [] (front ++ [last]) true = slashed (front ++ [last]) ++ [] := by
          rw [← intercalate_slash_end (by simp)]
          simp [written]
        rw [htext, split_slashed hslash]
        rfl
    | false =>
        have htext : written [] (front ++ [last]) false = slashed front ++ last := by
          rw [← intercalate_slash]
          simp [written]
        rw [htext, split_slashed_last hfront (hlast last List.mem_cons_self)]
        simp

variable (hdown : ∀ segment ∈ segments, LeadsDown segment)

include hdown

theorem segmentsIn_written (directory : Bool) : segmentsIn (written [] segments directory) = segments := by
  unfold segmentsIn
  rw [split_written hslash]
  by_cases hend : (directory || segments.isEmpty) = true
  · rw [if_pos hend, List.getLast?_concat, if_pos rfl, List.dropLast_concat]
  · rw [if_neg hend, List.append_nil, if_neg]
    exact fun hlast => (hdown [] (List.mem_of_getLast? hlast)).1 rfl

theorem namesDirectory_written (hne : segments ≠ []) (directory : Bool) :
    namesDirectory (written [] segments directory) = directory := by
  obtain ⟨front, last, rfl⟩ := (List.eq_nil_or_concat segments).resolve_left hne
  rw [List.concat_eq_append] at hdown hslash ⊢
  obtain ⟨hlast, hdots⟩ := hdown last (by simp)
  unfold namesDirectory
  rw [split_written hslash]
  cases directory with
  | true => simp [written]
  | false => simp [hlast, hdots]

/-- Segments that lead down do not make a start. -/
theorem begins_written (hstart : Fixed start ∨ start = [] ∧ segments ≠ []) (directory : Bool) :
    Begins (written start segments directory) start (written [] segments directory) := by
  refine ⟨rfl, hstart.imp_right fun ⟨hnil, hne⟩ => ⟨hnil, fun front hfront hbegins => ?_⟩⟩
  subst hnil
  have hsplit := split_written hslash directory
  obtain ⟨first, others, rfl⟩ := List.exists_cons_of_ne_nil hne
  have hhead : (split '/' (written [] (first :: others) directory)).head? = some first := by rw [hsplit]; rfl
  obtain ⟨hfirst, hdot, -⟩ := hdown first List.mem_cons_self
  rcases hfront with rfl | rfl
  · -- a path with one of the starts would have a first segment that does not lead down
    have hempty : (split '/' (written [] (first :: others) directory)).head? = some [] :=
      (head?_split (by simp) _).2 (.inr hbegins)
    exact hfirst (Option.some.inj (hhead.symm.trans hempty))
  · have hhere : (split '/' (written [] (first :: others) directory)).head? = some ['.'] :=
      (head?_split (by simp) _).2 (.inr hbegins)
    exact hdot (Option.some.inj (hhead.symm.trans hhere))

theorem written_ne_nil (hempty : ¬(start = [] ∧ segments = [])) (directory : Bool) :
    written start segments directory ≠ [] := by
  intro hnil
  obtain ⟨hstart, hrest⟩ := List.append_eq_nil_iff.1 hnil
  have hsegments := segmentsIn_written hslash hdown directory
  rw [written, List.nil_append, hrest] at hsegments
  exact hempty ⟨hstart, hsegments.symm⟩

theorem orHere_written (start : List Char) (directory : Bool) :
    orHere (written start segments directory) = written (startWith start segments) segments directory := by
  unfold startWith
  by_cases hempty : start = [] ∧ segments = []
  · rw [if_pos hempty, hempty.1, hempty.2]
    simp [orHere, written]
  · rw [if_neg hempty, orHere, if_neg (written_ne_nil hslash hdown hempty directory)]

theorem normalizeChars_written (hstart : Fixed start ∨ start = [] ∧ segments ≠ []) (directory : Bool) :
    normalizeChars (written start segments directory) = written start segments directory := by
  have hstays : startWith start segments = start := by
    unfold startWith
    split
    case isTrue hempty =>
      obtain ⟨rfl, rfl⟩ := hempty
      rcases hstart with (h | h) | ⟨-, hne⟩
      · cases h
      · cases h
      · exact absurd rfl hne
    case isFalse => rfl
  have hfollowed : ((split '/' (written [] segments directory)).foldl follow []).reverse = segments := by
    rw [split_written hslash, List.foldl_append, foldl_follow_plain [] hdown, List.append_nil]
    split
    · rw [List.foldl_cons, follow_stay _ (.inl rfl), List.foldl_nil, List.reverse_reverse]
    · rw [List.foldl_nil, List.reverse_reverse]
  have hsame : written start segments (namesDirectory (written [] segments directory)) =
      written start segments directory := by
    by_cases hne : segments = []
    · simp [written, hne]
    · rw [namesDirectory_written hslash hdown hne]
  rw [(begins_written hslash hdown hstart directory).normalizeChars_eq, hfollowed, hsame, orHere_written hslash hdown,
    hstays]

end

theorem Begins.startWith_cases {path start rest : List Char} (h : Begins path start rest) (left : List (List Char)) :
    Fixed (startWith start left) ∨ startWith start left = [] ∧ left ≠ [] := by
  unfold startWith
  split
  case isTrue => exact .inl (.inr rfl)
  case isFalse hempty => exact h.2.imp_right fun hnone => ⟨hnone.1, fun hnil => hempty ⟨hnone.1, hnil⟩⟩

theorem Begins.normalizeChars_ends {path start rest : List Char} (h : Begins path start rest) :
    normalizeChars path = orHere (written start ((split '/' rest).foldl follow []).reverse (EndsInDirectory path)) := by
  rw [h.normalizeChars_eq]
  by_cases hleft : ((split '/' rest).foldl follow []).reverse = []
  · simp [written, hleft]
  · -- only an empty rest could end differently from the path
    have hrest : rest ≠ [] := by
      rintro rfl
      exact hleft rfl
    have hends : namesDirectory rest = decide (EndsInDirectory path) := by
      rw [Bool.eq_iff_iff, namesDirectory_iff, decide_eq_true_iff, h.endsInDirectory_iff hrest]
    rw [hends]

/-- A path is normalised to its start and what is left of its segments when they are followed from left to right, with
a slash at the end if the path ends in a directory and segments are left, or else to a dot and a slash.  What it is
normalised to has no other segments, and is normalised to itself. -/
theorem normalize_followed (path : String) :
    ∃ start rest left, Begins path.toList start rest ∧ (∀ last, Follows [] (split '/' rest) last ↔ last = left) ∧
      (normalize path).toList = orHere (written start left (EndsInDirectory path.toList)) ∧
      (∃ rest', Begins (normalize path).toList (startWith start left) rest' ∧
        segmentsIn rest' = left ∧ ∀ segment ∈ segmentsIn rest', LeadsDown segment) ∧
      normalize (normalize path) = normalize path := by
  obtain ⟨start, rest, hpath⟩ := exists_begins path.toList
  have hnormal := hpath.normalizeChars_ends
  obtain ⟨left, hleft⟩ : ∃ left, left = ((split '/' rest).foldl follow []).reverse := ⟨_, rfl⟩
  rw [← hleft] at hnormal
  have hmem {segment : List Char} (h : segment ∈ left) : segment ∈ (split '/' rest).foldl follow [] :=
    List.mem_reverse.1 (hleft ▸ h)
  have hslash : ∀ segment ∈ left, '/' ∉ segment :=
    fun _ h => notMem_of_mem_followed (fun _ => notMem_of_mem_split) (hmem h)
  have hdown : ∀ segment ∈ left, LeadsDown segment := fun _ h => plain_of_mem_followed (hmem h)
  have hstart := hpath.startWith_cases left
  have hwritten := hnormal.trans (orHere_written hslash hdown start _)
  refine ⟨start, rest, left, hpath, fun last => hleft ▸ follows_iff, ?_, ?_, ?_⟩
  · rw [normalize, String.toList_ofList, hnormal]
  · refine ⟨written [] left (EndsInDirectory path.toList), ?_, ?_⟩
    · rw [normalize, String.toList_ofList, hwritten]
      exact begins_written hslash hdown hstart _
    · rw [segmentsIn_written hslash hdown]
      exact ⟨rfl, hdown⟩
  · rw [normalize, normalize, String.toList_ofList, hwritten, normalizeChars_written hslash hdown hstart]

/-- Steps back past the start of a path lead nowhere. -/
example : normalize "./a/../..//b/c/." = "./b/c/" := by decide +kernel

end Specifier

end WebModules
