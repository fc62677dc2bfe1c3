import WebModules.Proofs.Specifier.Normal
import WebModules.Proofs.Url.Segments

/-!
A specifier that is relative to a module of the client's own server is resolved twice: as a path,
which is followed from left to right as it is written, and then as a part of a URL.  Both ways agree
as long as a path is made of the same segments in both.
-/

namespace WebModules

namespace Specifier

open Text Url

/-- A part of a path that is one segment, and stands for none of the dots. -/
structure Ordinary (part : List Char) : Prop where
  slash : '\\' ∉ part
  double : isDoubleDot (percentEncode .path (part.filter counts)) = false
  single : isSingleDot (percentEncode .path (part.filter counts)) = false

/-- Two dots lead back over ordinary parts only. -/
def Retraced (path : List (List Char)) : List (List Char) → Prop
  | [] => True
  | part :: parts =>
    (part = ['.', '.'] → ∀ last ∈ path.head?, Ordinary last) ∧ Retraced (follow path part) parts

instance (part : List Char) : Decidable (Ordinary part) :=
  decidable_of_iff ('\\' ∉ part ∧ isDoubleDot (percentEncode .path (part.filter counts)) = false ∧
    isSingleDot (percentEncode .path (part.filter counts)) = false)
    ⟨fun h => ⟨h.1, h.2.1, h.2.2⟩, fun h => ⟨h.slash, h.double, h.single⟩⟩

instance decidableRetraced (path : List (List Char)) : (parts : List (List Char)) → Decidable (Retraced path parts)
  | [] => .isTrue trivial
  | part :: parts =>
    have := decidableRetraced (follow path part) parts
    inferInstanceAs (Decidable (_ ∧ _))

theorem segmentsOf_ordinary {part : List Char} (h : Ordinary part) (hslash : '/' ∉ part) :
    segmentsOf [part] = [part.filter counts] := by
  rw [segmentsOf_singleton]
  refine splitSegments_of_noSlash fun c hc => ?_
  have hmem := (List.mem_filter.1 hc).1
  have hne : c ≠ '/' ∧ c ≠ '\\' :=
    ⟨fun heq => hslash (heq ▸ hmem), fun heq => h.slash (heq ▸ hmem)⟩
  simpa [isSlash] using hne

theorem enter_ordinary (path : List (List Char)) {part : List Char} (h : Ordinary part) :
    enter path (part.filter counts) = path ++ [percentEncode .path (part.filter counts)] := by
  simp [enter, h.double, h.single]

/-- What following parts leads to is what entering their segments does. -/
theorem foldl_enter_follow {path parts : List (List Char)} (hpath : ∀ part ∈ path, '/' ∉ part)
    (hparts : ∀ part ∈ parts, '/' ∉ part ∧ part ≠ []) (hback : Retraced path parts) :
    (segmentsOf (parts.foldl follow path).reverse).foldl enter []
      = (segmentsOf parts).foldl enter ((segmentsOf path.reverse).foldl enter []) := by
  induction parts generalizing path with
  | nil => rfl
  | cons part parts ih =>
      obtain ⟨⟨hslash, hne⟩, hparts⟩ := List.forall_mem_cons.1 hparts
      obtain ⟨hordinary, hback⟩ := hback
      have hstep : (segmentsOf (follow path part).reverse).foldl enter []
          = (segmentsOf [part]).foldl enter ((segmentsOf path.reverse).foldl enter []) := by
        by_cases hdot : part = ['.']
        · rw [hdot, follow_dot]
          rfl
        · by_cases hdots : part = ['.', '.']
          · rw [hdots, follow_dots]
            cases path with
            | nil => rfl
            | cons last path =>
                have hlast : Ordinary last := hordinary hdots last rfl
                rw [List.reverse_cons, segmentsOf_append, List.foldl_append,
                  segmentsOf_ordinary hlast (hpath last List.mem_cons_self), List.foldl_cons, List.foldl_nil,
                  enter_ordinary _ hlast]
                change _ = List.dropLast _
                rw [List.dropLast_concat]
                rfl
          · rw [follow_plain path hne hdot hdots, List.reverse_cons, segmentsOf_append, List.foldl_append]
      have hfollow : ∀ next ∈ follow path part, '/' ∉ next := by
        intro next hnext
        have hfound : next ∈ [part].foldl follow path := hnext
        rcases mem_foldl_follow hfound with h | ⟨h, -⟩
        · exact hpath next h
        · rwa [List.mem_singleton.1 h]
      rw [List.foldl_cons, ih hfollow hparts hback, hstep, ← List.foldl_append, ← segmentsOf_append,
        List.singleton_append]

/-- Parts that lead back over ordinary ones of their own do so below a path of such parts. -/
theorem Retraced.below {path parts : List (List Char)} (h : Retraced path parts) {directory : List (List Char)}
    (hd : ∀ part ∈ directory, Ordinary part) : Retraced (path ++ directory) parts := by
  induction parts generalizing path directory with
  | nil => trivial
  | cons part parts ih =>
      obtain ⟨hordinary, hback⟩ := h
      refine ⟨fun hdots last hlast => ?_, ?_⟩
      · cases path with
        | nil => exact hd last (List.mem_of_mem_head? hlast)
        | cons first path => exact hordinary hdots last hlast
      · by_cases hdots : part = ['.', '.']
        · rw [hdots, follow_dots] at hback ⊢
          cases path with
          | nil => exact @ih [] hback (directory.drop 1) fun part hp => hd part (List.mem_of_mem_drop hp)
          | cons first path => exact ih hback hd
        · by_cases hstay : part.isEmpty ∨ part = ['.']
          · rw [follow, if_pos hstay] at hback ⊢
            exact ih hback hd
          · rw [follow, if_neg hstay, if_neg hdots] at hback ⊢
            exact ih hback hd

theorem Retraced.append {path before after : List (List Char)} (h : Retraced path (before ++ after)) :
    Retraced path before ∧ Retraced (before.foldl follow path) after := by
  induction before generalizing path with
  | nil => exact ⟨trivial, h⟩
  | cons part before ih =>
      obtain ⟨hordinary, h⟩ := h
      obtain ⟨hbefore, hafter⟩ := ih h
      exact ⟨⟨hordinary, hbefore⟩, hafter⟩

/-! Paths -/

theorem directory_segments {front : List (List Char)} {last : List Char} (h : '/' ∉ last) :
    directory (Path.segments (front ++ [last])).chars = '/' :: slashed front := by
  have hchars (front : List (List Char)) : front.flatMap ('/' :: ·) ++ ['/'] = '/' :: slashed front := by
    induction front with
    | nil => rfl
    | cons part front ih => rw [List.flatMap_cons, List.append_assoc, ih, slashed_cons, List.cons_append]
  rw [Path.chars, List.flatMap_append, List.flatMap_singleton, directory_append h, hchars]

/-! Faithful specifiers -/

/-- A specifier that leads to the same place as a path and as a part of a URL. -/
structure Faithful (specifier : List Char) : Prop where
  /-- Its path has no empty segments but the last one. -/
  full : ∀ s ∈ (splitSegments true (splitPath (cleaned specifier)).1).dropLast, s ≠ []
  back : Retraced [] (split '/' specifier)
  /-- What follows a slash in its query or fragment is not taken for dots. -/
  dots : ∀ part ∈ (split '/' (splitPath specifier).2).tail, part ≠ ['.'] ∧ part ≠ ['.', '.']
  rest : ∀ part ∈ (split '/' (splitPath specifier).2).tail.dropLast, part ≠ []

instance (specifier : List Char) : Decidable (Faithful specifier) :=
  decidable_of_iff (_ ∧ _ ∧ _ ∧ _)
    ⟨fun h => ⟨h.1, h.2.1, h.2.2.1, h.2.2.2⟩, fun h => ⟨h.full, h.back, h.dots, h.rest⟩⟩

/-- A part of a path that holds no empty segment, and no sign that ends a path. -/
structure Clear (part : List Char) : Prop where
  sign : ∀ c ∈ part, c ≠ '?' ∧ c ≠ '#'
  full : ∀ s ∈ segmentsOf [part], s ≠ []

/-- Leaving characters out brings no sign into a path. -/
theorem sign_filter {path : List (List Char)} (h : ∀ part ∈ path, ∀ c ∈ part, c ≠ '?' ∧ c ≠ '#') :
    ∀ part ∈ path.map (List.filter counts), ∀ c ∈ part, c ≠ '?' ∧ c ≠ '#' := by
  intro part hp c hc
  obtain ⟨whole, hwhole, rfl⟩ := List.mem_map.1 hp
  exact h whole hwhole c (List.mem_filter.1 hc).1

theorem mem_segmentsOf {s : List Char} {parts : List (List Char)} :
    s ∈ segmentsOf parts ↔ ∃ part ∈ parts, s ∈ segmentsOf [part] := by
  simp [segmentsOf]

theorem splitPath_eq (cs : List Char) : (splitPath cs).1 ++ (splitPath cs).2 = cs := List.takeWhile_append_dropWhile

theorem splitPath_fst (cs : List Char) : ∀ c ∈ (splitPath cs).1, c ≠ '?' ∧ c ≠ '#' := by
  intro c hc
  simpa using List.mem_takeWhile_imp hc

theorem splitPath_snd (cs : List Char) : ∀ c ∈ (splitPath cs).2.head?, c = '?' ∨ c = '#' := by
  intro c hc
  have hdrop := List.head?_dropWhile_not (fun c : Char => c != '?' && c != '#') cs
  have hhead : (List.dropWhile (fun c : Char => c != '?' && c != '#') cs).head? = some c := hc
  rw [hhead] at hdrop
  have hsign : c ≠ '?' → c = '#' := by simpa using hdrop
  tauto

/-- How a specifier ends: with dots, which name a directory, or with what stays as it is. -/
inductive Ends (inner : List (List Char)) : List Char → Prop
  | directory {last : List Char} (dots : last = ['.'] ∨ last = ['.', '.']) (back : Retraced [] (inner ++ [last])) :
      Ends inner last
  | file {cs : List Char} (dots : ∀ part ∈ split '/' cs, part ≠ ['.'] ∧ part ≠ ['.', '.'])
      (full : ∀ part ∈ (split '/' cs).dropLast, part ≠ [])
      (back : Retraced [] inner) : Ends inner cs

/-- The segments of a specifier before its last one, and the rest. -/
structure Cut (specifier : List Char) (inner : List (List Char)) (cs : List Char) : Prop where
  text : specifier = slashed inner ++ cs
  slash : ∀ part ∈ inner, '/' ∉ part
  clear : ∀ part ∈ inner, Clear part
  start : ∀ s ∈ (splitSegments true (splitPath (cleanedEnd cs)).1).dropLast, s ≠ []
  ends : Ends inner cs

theorem split_sign {last : List Char} (hslash : '/' ∉ last) {c : Char} (hc : c = '?' ∨ c = '#') (rest : List Char) :
    ∃ part parts, split '/' (c :: rest) = part :: parts ∧
      split '/' (last ++ c :: rest) = (last ++ part) :: parts ∧ c ∈ part := by
  obtain ⟨part, parts, hparts⟩ := List.exists_cons_of_ne_nil (split_ne_nil '/' rest)
  have hne : c ≠ '/' := by rcases hc with rfl | rfl <;> decide
  have hsplit : split '/' (c :: rest) = (c :: part) :: parts := by rw [split, if_neg hne, hparts]
  exact ⟨c :: part, parts, hsplit, by rw [split_notMem_append hslash, hsplit, List.modifyHead_cons], by simp⟩

/-- A last segment without a query names a directory by dots, or a file. -/
theorem ends_of_notMem {inner : List (List Char)} {last : List Char} (hslash : '/' ∉ last)
    (hback : Retraced [] (inner ++ [last])) : Ends inner last := by
  by_cases hdots : last = ['.'] ∨ last = ['.', '.']
  · exact .directory hdots hback
  · rw [not_or] at hdots
    refine .file ?_ ?_ hback.append.1
    · rw [split_of_notMem hslash]
      simpa using hdots
    · rw [split_of_notMem hslash]
      simp

/-- A last segment with a query is no dots. -/
theorem ends_of_sign {inner : List (List Char)} {last rest : List Char} {c : Char} (hslash : '/' ∉ last)
    (hc : c = '?' ∨ c = '#') (hback : Retraced [] inner)
    (hdots : ∀ part ∈ (split '/' (c :: rest)).tail, part ≠ ['.'] ∧ part ≠ ['.', '.'])
    (hfull : ∀ part ∈ (split '/' (c :: rest)).tail.dropLast, part ≠ []) : Ends inner (last ++ c :: rest) := by
  obtain ⟨part, parts, hparts, hwhole, hmem⟩ := split_sign hslash hc rest
  rw [hparts, List.tail_cons] at hdots hfull
  have hne : last ++ part ≠ [] := List.append_ne_nil_of_right_ne_nil _ (List.ne_nil_of_mem hmem)
  have hnot {dots : List Char} (hd : c ∉ dots) : last ++ part ≠ dots :=
    fun heq => hd (heq ▸ List.mem_append_right _ hmem)
  have hsign : c ∉ ['.'] ∧ c ∉ ['.', '.'] := by rcases hc with rfl | rfl <;> decide
  refine .file ?_ ?_ hback
  · rw [hwhole]
    exact List.forall_mem_cons.2 ⟨⟨hnot hsign.1, hnot hsign.2⟩, hdots⟩
  · rw [hwhole]
    cases parts with
    | nil => simp
    | cons next parts =>
        rw [List.dropLast_cons_cons]
        exact List.forall_mem_cons.2 ⟨hne, hfull⟩

theorem Faithful.exists_cut {specifier : List Char} (h : Faithful specifier)
    (hstart : ∀ c ∈ specifier.head?, isBlank c = false) : ∃ inner cs, Cut specifier inner cs := by
  obtain ⟨inner, last, hsplit, hpath⟩ := exists_slashed (splitPath specifier).1
  have hslash {part : List Char} (hp : part ∈ inner ++ [last]) : '/' ∉ part := notMem_of_mem_split (hsplit ▸ hp)
  have hinner : ∀ part ∈ inner, '/' ∉ part := fun part hp => hslash (List.mem_append_left _ hp)
  have hlast : '/' ∉ last := hslash (by simp)
  have htext : specifier = slashed inner ++ (last ++ (splitPath specifier).2) := by
    rw [← List.append_assoc, ← hpath, splitPath_eq]
  have hsign : ∀ part ∈ inner, ∀ c ∈ part, c ≠ '?' ∧ c ≠ '#' := by
    intro part hp c hc
    refine splitPath_fst specifier c ?_
    rw [hpath, slashed]
    exact List.mem_append_left _ (List.mem_flatMap.2 ⟨part, hp, List.mem_append_left _ hc⟩)
  have hfull := h.full
  rw [htext, cleaned_slashed (htext ▸ hstart), splitPath_slashed (sign_filter hsign), splitSegments_slashed,
    List.dropLast_append_of_ne_nil (splitSegments_ne_nil true _), List.forall_mem_append] at hfull
  have hback := h.back
  rw [htext, split_slashed hinner] at hback
  refine ⟨inner, last ++ (splitPath specifier).2, ?_⟩
  constructor
  case text => exact htext
  case slash => exact hinner
  case clear =>
    exact fun part hp => ⟨hsign part hp, fun s hs => hfull.1 s (mem_segmentsOf.2 ⟨part, hp, hs⟩)⟩
  case start => exact hfull.2
  case ends =>
    have hquery := splitPath_snd specifier
    have hdots := h.dots
    have hrest := h.rest
    cases hcs : (splitPath specifier).2 with
    | nil =>
        rw [hcs, List.append_nil, split_of_notMem hlast] at hback
        rw [List.append_nil]
        exact ends_of_notMem hlast hback
    | cons c rest =>
        rw [hcs] at hquery hdots hrest
        exact ends_of_sign hlast (hquery c rfl) hback.append.1 hdots hrest

/-! Both ways -/

/-- A text starts with no slash. -/
def NoSlash (cs : List Char) : Prop := ∀ c ∈ cs.head?, isSlash c = false

theorem noSlash_of_full {cs : List Char} (h : ∀ s ∈ (splitSegments true (splitPath cs).1).dropLast, s ≠ []) :
    NoSlash cs := by
  intro c hc
  by_contra hslash
  rw [Bool.not_eq_false] at hslash
  obtain ⟨rest, rfl⟩ : ∃ rest, cs = c :: rest := by
    cases cs with
    | nil => cases hc
    | cons d rest => exact ⟨rest, by rw [Option.mem_some_iff.1 hc]⟩
  have hsign : ∀ d ∈ [c], d ≠ '?' ∧ d ≠ '#' := by
    simp only [isSlash, Bool.or_eq_true, beq_iff_eq] at hslash
    rcases hslash with rfl | rfl <;> decide
  rw [← List.singleton_append, splitPath_append hsign, List.singleton_append, ← List.nil_append (c :: _),
    splitSegments_slash hslash, List.dropLast_append_of_ne_nil (splitSegments_ne_nil true _)] at h
  exact h [] (List.mem_append_left _ (by simp [splitSegments])) rfl

theorem exists_cons_of_full {cs : List Char} (h : ∀ s ∈ splitSegments true cs, s ≠ []) :
    ∃ c rest, cs = c :: rest ∧ isSlash c = false := by
  cases cs with
  | nil => exact absurd rfl (h [] (by simp [splitSegments]))
  | cons c rest =>
      refine ⟨c, rest, rfl, ?_⟩
      by_contra hslash
      rw [Bool.not_eq_false] at hslash
      rw [← List.nil_append (c :: _), splitSegments_slash hslash] at h
      exact h [] (List.mem_append_left _ (by simp [splitSegments])) rfl

theorem noSlash_slashed {path : List (List Char)} (hclear : ∀ part ∈ path, Clear part) {cs : List Char}
    (h : NoSlash cs) : NoSlash (slashed (path.map (List.filter counts)) ++ cs) := by
  cases path with
  | nil => exact h
  | cons first path =>
      have hfull : ∀ s ∈ splitSegments true (first.filter counts), s ≠ [] := fun s hs =>
        (hclear first List.mem_cons_self).full s (by rwa [segmentsOf_singleton])
      obtain ⟨c, rest, hfirst, hc⟩ := exists_cons_of_full hfull
      rw [List.map_cons, slashed_cons, hfirst]
      intro d hd
      rwa [← Option.some.inj hd]

theorem isBlank_of_dot {cs : List Char} (h : cs.head? = some '.') : ∀ c ∈ cs.head?, isBlank c = false := by
  intro c hc
  rw [h] at hc
  rw [← Option.some.inj hc]
  decide

theorem join_root {base : Url} (hb : base.Web) {path : List (List Char)}
    (hclear : ∀ part ∈ path, Clear part) {cs : List Char} (hstart : NoSlash (cleanedEnd cs)) :
    base.join (String.ofList ('/' :: (slashed path ++ cs))) = .ok (withRest
      { base with path := .segments (addSegments false ((segmentsOf path).foldl enter [])
        (splitSegments true (splitPath (cleanedEnd cs)).1)) } (splitPath (cleanedEnd cs)).2) := by
  have hclean : cleaned ('/' :: (slashed path ++ cs))
      = '/' :: (slashed (path.map (List.filter counts)) ++ cleanedEnd cs) := by
    have hslashed : cleaned (slashed ([] :: path) ++ cs) = _ := cleaned_slashed (by simp; decide)
    simpa using hslashed
  rw [hb.join_eq (by rw [String.toList_ofList, hclean]) (by decide) (by decide),
    hb.parseRelative_root (noSlash_slashed hclear hstart), splitPath_slashed, splitSegments_slashed,
    addSegments_append _ _ (splitSegments_ne_nil true _)]
  · rfl
  · exact sign_filter fun part hp => (hclear part hp).sign

theorem join_below {u : Url} (hu : u.Web) {inner : List (List Char)} {cs : List Char}
    (hdot : (slashed inner ++ cs).head? = some '.') (hclear : ∀ part ∈ inner, Clear part) :
    u.join (String.ofList (slashed inner ++ cs)) = .ok (withRest
      { u with path := .segments (addSegments false ((segmentsOf inner).foldl enter u.segments.dropLast)
        (splitSegments true (splitPath (cleanedEnd cs)).1)) } (splitPath (cleanedEnd cs)).2) := by
  obtain ⟨rest, hrest⟩ : ∃ rest, slashed inner ++ cs = '.' :: rest := by
    cases hcs : slashed inner ++ cs with
    | nil => simp [hcs] at hdot
    | cons c rest => exact ⟨rest, by rw [hcs] at hdot; rw [Option.some.inj hdot]⟩
  have hclean := cleaned_slashed (isBlank_of_dot hdot)
  have hcons := cleaned_cons (c := '.') (by decide) (by decide) rest
  rw [hu.join_eq (by rw [String.toList_ofList, hrest, hcons]) (by decide) (by decide),
    hu.parseRelative_below (by decide), ← hcons, ← hrest, hclean, splitPath_slashed, splitSegments_slashed,
    addSegments_append _ _ (splitSegments_ne_nil true _)]
  · rfl
  · exact sign_filter fun part hp => (hclear part hp).sign

/-- A segment of a directory. -/
def InDirectory (s : List Char) : Prop := Written s ∧ s ≠ []

theorem InDirectory.filter_counts {s : List Char} (h : InDirectory s) : s.filter counts = s := by
  refine List.filter_eq_self.2 fun c hc => ?_
  obtain ⟨-, hplain⟩ := h.1.plain c hc
  have hlow : ¬ c.toNat < 32 := fun hlt => by simp [isEncodedIn, hlt] at hplain
  unfold counts
  rw [Bool.not_eq_true', Bool.or_eq_false_iff, Bool.or_eq_false_iff]
  refine ⟨⟨?_, ?_⟩, ?_⟩
  all_goals exact beq_eq_false_iff_ne.2 fun heq => hlow (by rw [heq]; decide)

theorem InDirectory.notMem_slash {s : List Char} (h : InDirectory s) : '/' ∉ s := by
  intro hmem
  exact absurd (h.1.slash _ hmem) (by decide)

theorem InDirectory.sign {s : List Char} (h : InDirectory s) : ∀ c ∈ s, c ≠ '?' ∧ c ≠ '#' := by
  intro c hc
  obtain ⟨-, hplain⟩ := h.1.plain c hc
  constructor
  all_goals
    rintro rfl
    exact absurd hplain (by decide)

theorem InDirectory.ordinary {s : List Char} (h : InDirectory s) : Ordinary s := by
  have hencoded : percentEncode .path (s.filter counts) = s := by
    rw [h.filter_counts, percentEncode_of_plain h.1.plain]
  refine ⟨fun hmem => absurd (h.1.slash _ hmem) (by decide), ?_, ?_⟩
  · rw [hencoded]
    exact h.1.double
  · rw [hencoded]
    exact h.1.single

theorem InDirectory.segmentsOf_eq {s : List Char} (h : InDirectory s) : segmentsOf [s] = [s] := by
  rw [segmentsOf_ordinary h.ordinary h.notMem_slash, h.filter_counts]

theorem InDirectory.ne_dots {s : List Char} (h : InDirectory s) : s ≠ [] ∧ s ≠ ['.'] ∧ s ≠ ['.', '.'] := by
  refine ⟨h.2, ?_, ?_⟩
  · rintro rfl
    exact absurd h.1.single (by decide)
  · rintro rfl
    exact absurd h.1.double (by decide)

theorem foldl_enter_directory {directory : List (List Char)} (h : ∀ s ∈ directory, InDirectory s)
    (path : List (List Char)) : (segmentsOf directory).foldl enter path = path ++ directory := by
  induction directory generalizing path with
  | nil => rw [List.append_nil]; rfl
  | cons s directory ih =>
      obtain ⟨hs, hdirectory⟩ := List.forall_mem_cons.1 h
      have henter : enter path s = path ++ [s] := by
        rw [← hs.filter_counts, enter_ordinary path hs.ordinary, hs.filter_counts,
          percentEncode_of_plain hs.1.plain]
      rw [← List.singleton_append, segmentsOf_append, hs.segmentsOf_eq, List.foldl_append, List.foldl_cons,
        List.foldl_nil, ih hdirectory, henter, List.append_assoc]

/-- Dots after which no segment follows lead to a directory, as two dots do before an empty segment. -/
theorem addSegments_dots (path : List (List Char)) {last : List Char} (h : last = ['.'] ∨ last = ['.', '.']) :
    addSegments false path [last] = addSegments false (enter path last) [[]] := by
  rcases h with rfl | rfl
  · rfl
  · simp only [addSegments, shortened_false]
    rfl

section

variable {directory inner : List (List Char)}

theorem foldl_follow_directory (hd : ∀ s ∈ directory, InDirectory s) (parts : List (List Char)) :
    (directory ++ parts).foldl follow [] = parts.foldl follow directory.reverse := by
  rw [List.foldl_append, foldl_follow_plain [] fun s hs => (hd s hs).ne_dots, List.append_nil]

theorem InDirectory.clear {s : List Char} (h : InDirectory s) : Clear s :=
  ⟨h.sign, by rw [h.segmentsOf_eq]; simpa using h.2⟩

/-- What is left of a directory and of parts that have been followed. -/
theorem clear_of_mem_follow (hd : ∀ s ∈ directory, InDirectory s) (hinner : ∀ part ∈ inner, Clear part)
    {part : List Char} (h : part ∈ (directory ++ inner).foldl follow []) : Clear part := by
  rcases mem_foldl_follow h with h | ⟨h, -⟩
  · cases h
  · rcases List.mem_append.1 h with h | h
    · exact (hd part h).clear
    · exact hinner part h

theorem foldl_enter_cut (hd : ∀ s ∈ directory, InDirectory s) {parts : List (List Char)}
    (hparts : ∀ part ∈ parts, '/' ∉ part ∧ part ≠ []) (hback : Retraced [] parts) :
    (segmentsOf ((directory ++ parts).foldl follow []).reverse).foldl enter []
      = (segmentsOf parts).foldl enter directory := by
  have hbelow : Retraced directory.reverse parts := by
    have hown : Retraced ([] ++ directory.reverse) parts :=
      hback.below fun s hs => (hd s (List.mem_reverse.1 hs)).ordinary
    rwa [List.nil_append] at hown
  rw [foldl_follow_directory hd, foldl_enter_follow (fun s hs => (hd s (List.mem_reverse.1 hs)).notMem_slash) hparts hbelow,
    List.reverse_reverse, foldl_enter_directory hd, List.nil_append]

end

/-- A faithful specifier leads to the same path from a directory of the client's server and from a
URL in that directory. -/
theorem Faithful.join_eq {specifier : List Char} (h : Faithful specifier) (hdot : specifier.head? = some '.')
    {u base : Url} (hu : u.Web) (hb : base.Web) (hd : ∀ s ∈ u.segments.dropLast, InDirectory s) :
    ∃ path rest,
      base.join (String.ofList (normalizeChars ('/' :: (slashed u.segments.dropLast ++ specifier))))
        = .ok (withRest { base with path := path } rest) ∧
      u.join (String.ofList specifier) = .ok (withRest { u with path := path } rest) := by
  obtain ⟨inner, cs, hcut⟩ := h.exists_cut (isBlank_of_dot hdot)
  have hinner : ∀ part ∈ inner, '/' ∉ part ∧ part ≠ [] := by
    refine fun part hp => ⟨hcut.slash part hp, ?_⟩
    rintro rfl
    exact (hcut.clear [] hp).full [] (by decide) rfl
  have hslash : ∀ part ∈ u.segments.dropLast ++ inner, '/' ∉ part :=
    List.forall_mem_append.2 ⟨fun s hs => (hd s hs).notMem_slash, hcut.slash⟩
  have hclear {part : List Char} (hp : part ∈ (u.segments.dropLast ++ inner).foldl follow []) : Clear part :=
    clear_of_mem_follow hd hcut.clear hp
  have htext := hcut.text
  subst htext
  have hends := hcut.ends
  have hbelow := join_below hu hdot hcut.clear
  rw [← List.append_assoc, ← slashed_append]
  cases hends with
  | directory dots back =>
      have hread : splitPath (cleanedEnd cs) = (cs, []) ∧ splitSegments true cs = [cs] ∧ segmentsOf [cs] = [cs] ∧
          '/' ∉ cs ∧ cs ≠ [] := by rcases dots with rfl | rfl <;> decide
      obtain ⟨hsplit, hsegments, hlast, hnot, hne⟩ := hread
      have hpath := foldl_enter_cut hd
        (List.forall_mem_append.2 ⟨hinner, List.forall_mem_singleton.2 ⟨hnot, hne⟩⟩) back
      rw [segmentsOf_append, hlast, List.foldl_concat, ← List.append_assoc] at hpath
      have hfollow : ∀ part ∈ ((u.segments.dropLast ++ inner ++ [cs]).foldl follow []).reverse, Clear part := by
        intro part hp
        rw [List.mem_reverse, List.foldl_concat] at hp
        rcases dots with rfl | rfl
        · exact hclear hp
        · exact hclear (List.mem_of_mem_drop hp)
      have hnothing : NoSlash (cleanedEnd []) := by
        intro c hc
        cases hc
      have hroot := join_root hb hfollow hnothing
      rw [hpath, List.append_nil] at hroot
      rw [hsplit, hsegments, addSegments_dots _ dots] at hbelow
      have hnormal : normalizeChars ('/' :: (slashed (u.segments.dropLast ++ inner) ++ cs)) = _ :=
        normalizeChars_directory (.inl rfl) hslash (.inr dots)
      exact ⟨_, _, by rw [hnormal]; exact hroot, hbelow⟩
  | file dots full back =>
      have hnormal : normalizeChars ('/' :: (slashed (u.segments.dropLast ++ inner) ++ cs)) = _ :=
        normalizeChars_plain (.inl rfl) hslash dots full
      refine ⟨_, _, ?_, hbelow⟩
      rw [hnormal, List.singleton_append,
        join_root hb (fun part hp => hclear (List.mem_reverse.1 hp)) (noSlash_of_full hcut.start),
        foldl_enter_cut hd hinner back]

end Specifier

end WebModules
