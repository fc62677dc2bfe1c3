import WebModules.Proofs.Specifier.Normal
import WebModules.Proofs.Url.Segments

/-!
Specifiers that are followed one after the other.  Where a specifier leads to a file, another one leads
on from that file to where both together lead.
-/

namespace WebModules

namespace Specifier

open Text

variable {start : List Char} {r s t : String}

theorem isRelative_iff : isRelative s = true ↔
    (split '/' s.toList).head? = some ['.'] ∨ (split '/' s.toList).head? = some ['.', '.'] := by
  have hdot : s = "." ↔ s.toList = ['.'] := String.toList_inj.symm
  have hdots : s = ".." ↔ s.toList = ['.', '.'] := String.toList_inj.symm
  have hfront : "./".toList = ['.'] ++ ['/'] ∧ "../".toList = ['.', '.'] ++ ['/'] := by decide
  rw [head?_split (by decide), head?_split (by decide)]
  simp only [isRelative, Bool.or_eq_true, beq_iff_eq, hdot, hdots, hfront, List.isPrefixOf_iff_prefix]
  tauto

theorem ne_nil_of_isRelative (h : isRelative s = true) : s.toList ≠ [] := by
  intro hnil
  rw [isRelative_iff, hnil] at h
  exact absurd h (by decide)

/-- Segments in front of a relative specifier that are those of another one leave it relative. -/
theorem isRelative_slashed {front : List (List Char)} (hfront : ∀ part ∈ front, '/' ∉ part) {last : List Char}
    (hs : isRelative (String.ofList (slashed front ++ last)) = true) (ht : isRelative t = true) :
    isRelative (String.ofList (slashed front ++ t.toList)) = true := by
  cases front with
  | nil => rwa [slashed_nil, List.nil_append, String.ofList_toList]
  | cons part front =>
      rw [isRelative_iff, String.toList_ofList, split_slashed hfront] at hs ⊢
      exact hs

/-- No URL starts with a slash or a dot. -/
theorem parse_eq_error (h : Fixed start) {rest : List Char} (hr : r.toList = start ++ rest) :
    Url.parse r = .error .noBase := by
  rcases h with rfl | rfl
  · exact Url.parse_eq_error (by rw [hr, List.singleton_append, Url.cleaned_cons (by decide) (by decide)]) (by decide)
  · exact Url.parse_eq_error (by rw [hr, List.cons_append, Url.cleaned_cons (by decide) (by decide)]) (by decide)

theorem join_of_path (h : Fixed start) {rest : List Char} (hr : r.toList = start ++ rest) (hs : isRelative s = true) :
    join r s = String.ofList (normalizeChars (directory r.toList ++ s.toList)) := by
  rw [join, if_neg (by simp [hs]), parse_eq_error h hr]
  rfl

theorem join_slashed (h : Fixed start) {front : List (List Char)} {last : List Char} (hlast : '/' ∉ last)
    (hr : r.toList = start ++ (slashed front ++ last)) (hs : isRelative s = true) :
    join r s = String.ofList (normalizeChars (start ++ (slashed front ++ s.toList))) := by
  rw [join_of_path h hr hs, hr, h.directory_append hlast, List.append_assoc]

/-- Whether a path starts with a slash, or with a dot and a slash. -/
def HasStart (path : String) : Prop := ['/'] <+: path.toList ∨ ['.', '/'] <+: path.toList

theorem HasStart.exists_fixed (h : HasStart r) : ∃ start rest, Fixed start ∧ r.toList = start ++ rest := by
  rcases h with ⟨rest, hrest⟩ | ⟨rest, hrest⟩
  · exact ⟨['/'], rest, .inl rfl, hrest.symm⟩
  · exact ⟨['.', '/'], rest, .inr rfl, hrest.symm⟩

/-- Whether the last segment of a specifier leads to a file. -/
def LeadsToFile (specifier : String) : Prop :=
  ∀ last ∈ (split '/' specifier.toList).getLast?, last ≠ [] ∧ last ≠ ['.'] ∧ last ≠ ['.', '.']

instance (specifier : String) : Decidable (LeadsToFile specifier) :=
  inferInstanceAs (Decidable (∀ last ∈ (split '/' specifier.toList).getLast?,
    last ≠ [] ∧ last ≠ ['.'] ∧ last ≠ ['.', '.']))

/-- A specifier leads on from a file that another one leads to, as both together do: the segments of the
other one up to its last slash, and then those of the specifier. -/
theorem join_join (hr : HasStart r) (hs : isRelative s = true) (ht : isRelative t = true) (hfile : LeadsToFile s) :
    join (join r s) t = join r (String.ofList (directory s.toList ++ t.toList)) := by
  obtain ⟨start, rest, hstart, hr⟩ := hr.exists_fixed
  obtain ⟨front, file, hrest, rfl⟩ := exists_slashed rest
  obtain ⟨inner, last, hsegments, htext⟩ := exists_slashed s.toList
  have hfront : ∀ part ∈ front ++ [file], '/' ∉ part := fun part hp => notMem_of_mem_split (hrest ▸ hp)
  have hinner : ∀ part ∈ inner ++ [last], '/' ∉ part := fun part hp => notMem_of_mem_split (hsegments ▸ hp)
  obtain ⟨hne, hdots⟩ := hfile last (by rw [hsegments, List.getLast?_concat]; rfl)
  obtain ⟨hfront, hfile⟩ := List.forall_mem_append.1 hfront
  obtain ⟨hinner, hlast⟩ := List.forall_mem_append.1 hinner
  replace hfile := hfile file List.mem_cons_self
  replace hlast := hlast last List.mem_cons_self
  have hall : ∀ part ∈ front ++ inner, '/' ∉ part := List.forall_mem_append.2 ⟨hfront, hinner⟩
  have hfirst : (join r s).toList = start ++ (slashed ((front ++ inner).foldl follow []).reverse ++ last) := by
    rw [join_slashed hstart hfile hr hs, String.toList_ofList, htext, ← List.append_assoc (slashed front),
      ← slashed_append, normalizeChars_file hstart hall hlast hne hdots]
  have hboth : isRelative (String.ofList (slashed inner ++ t.toList)) = true :=
    isRelative_slashed hinner (by rwa [← htext, String.ofList_toList]) ht
  rw [join_slashed hstart hlast hfirst ht, normalizeChars_followed hstart hall (ne_nil_of_isRelative ht), htext,
    directory_slashed hlast, join_slashed hstart hfile hr hboth, String.toList_ofList, slashed_append,
    List.append_assoc]

theorem join_join_clamped :
    HasStart "./lib//a.js" ∧ isRelative "../../../b/./c.js" = true ∧ isRelative "../../d/." = true ∧
      LeadsToFile "../../../b/./c.js" ∧
      join (join "./lib//a.js" "../../../b/./c.js") "../../d/." = join "./lib//a.js" "../../../b/./../../d/." ∧
      join "./lib//a.js" "../../../b/./../../d/." = "./d/" := by
  have hstart : HasStart "./lib//a.js" := .inr ⟨"lib//a.js".toList, by decide⟩
  have hfile : LeadsToFile "../../../b/./c.js" := by decide
  exact ⟨hstart, by decide, by decide, hfile, join_join hstart (by decide) (by decide) hfile, by decide +kernel⟩

end Specifier

end WebModules
