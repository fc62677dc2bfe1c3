import WebModules.Url.Parse

/-!
URLs that are read have a path that starts with a slash, if they are of the web.
-/

namespace WebModules.Url

/-- A path of segments, of which there is one at least. -/
def Path.Rooted (p : Path) : Prop := ∃ s ss, p = .segments (s :: ss)

/-- A URL whose scheme is none of dots, and whose path starts with a slash if it is of the web. -/
structure Regular (u : Url) : Prop where
  scheme : u.scheme.head? ≠ some '.'
  rooted : u.scheme = "http".toList → u.path.Rooted

theorem addSegments_ne_nil (isFile : Bool) (path : List (List Char)) {segments : List (List Char)}
    (h : segments ≠ []) : addSegments isFile path segments ≠ [] := by
  induction segments generalizing path with
  | nil => exact absurd rfl h
  | cons s more ih =>
      unfold addSegments
      dsimp only
      by_cases hm : more = []
      · subst hm
        unfold addSegments
        split
        · simp
        · split
          · simp
          · split <;> simp
      · exact ih _ hm

theorem rooted_extended {scheme : List Char} (hs : isFileScheme scheme = false)
    (path : List (List Char)) (cs : List Char) : (extended scheme path cs).Rooted := by
  have hne := addSegments_ne_nil (isFileScheme scheme) path
    (List.splitOnP_ne_nil (fun c => c == '/' || (isSpecialScheme scheme && c == '\\')) cs)
  obtain ⟨s, ss, hss⟩ := List.exists_cons_of_ne_nil hne
  refine ⟨s, ss, ?_⟩
  unfold extended splitSegments
  dsimp only
  rw [hss, hs]
  rfl

theorem withRest_scheme (u : Url) (cs : List Char) : (withRest u cs).scheme = u.scheme := by
  unfold withRest
  dsimp only
  split <;> rfl

theorem withRest_path (u : Url) (cs : List Char) : (withRest u cs).path = u.path := by
  unfold withRest
  dsimp only
  split <;> rfl

theorem Regular.withRest {u : Url} (h : u.Regular) (cs : List Char) : (withRest u cs).Regular := by
  refine ⟨?_, ?_⟩
  · rw [withRest_scheme]
    exact h.scheme
  · rw [withRest_scheme, withRest_path]
    exact h.rooted

theorem Regular.fragment {u : Url} (h : u.Regular) (fragment : Option (List Char)) :
    { u with fragment := fragment }.Regular := ⟨h.scheme, h.rooted⟩

/-- A URL of a file is regular, whatever its path. -/
theorem regular_file {u : Url} (h : u.scheme = "file".toList) : u.Regular :=
  ⟨by rw [h]; decide, by rw [h]; exact fun hweb => absurd hweb (by decide)⟩

/-- Whatever is read satisfies a condition. -/
def Yields {ε α : Type} (P : α → Prop) (x : Except ε α) : Prop := ∀ a, x = .ok a → P a

section

variable {ε α β : Type} {P : α → Prop}

theorem yields_ok {a : α} (h : P a) : Yields P (.ok a : Except ε α) := by
  rintro _ ⟨⟩
  exact h

theorem yields_error (e : ε) : Yields P (.error e) := by
  rintro _ ⟨⟩

theorem yields_bind {x : Except ε β} {f : β → Except ε α} (h : ∀ b, Yields P (f b)) :
    Yields P (x >>= f) := by
  cases x with
  | error e => exact yields_error e
  | ok b => exact h b

end

theorem rooted_firstPath (cs : List Char) : (firstPath "http".toList cs).Rooted := by
  unfold firstPath
  dsimp only
  split
  · split <;> exact rooted_extended (by decide) [] _
  · exact ⟨[], [], rfl⟩

theorem yields_parseAuthority {scheme : List Char} (hs : scheme.head? ≠ some '.') (cs : List Char) :
    Yields Regular (parseAuthority scheme cs) := by
  have hfirst (authority : Authority) (path rest : List Char) :
      (withRest ⟨scheme, some authority, firstPath scheme path, none, none⟩ rest).Regular :=
    Regular.withRest ⟨hs, fun hweb => by rw [show scheme = _ from hweb]; exact rooted_firstPath path⟩ rest
  unfold parseAuthority
  dsimp only
  repeat' first
    | exact yields_ok (hfirst _ _ _)
    | exact yields_error _
    | refine yields_bind fun _ => ?_
    | split

theorem regular_withRest_file (authority : Option Authority) (path : Path) (rest : List Char) :
    (withRest ⟨"file".toList, authority, path, none, none⟩ rest).Regular :=
  regular_file (withRest_scheme _ _)

theorem yields_parseFileHost (cs : List Char) : Yields Regular (parseFileHost cs) := by
  unfold parseFileHost
  dsimp only
  repeat' first
    | exact yields_ok (regular_withRest_file _ _ _)
    | refine yields_bind fun _ => ?_
    | split

theorem yields_parseFile {base : Option Url} (hb : ∀ b ∈ base, b.Regular) (cs : List Char) :
    Yields Regular (parseFile base cs) := by
  unfold parseFile
  dsimp only
  repeat' first
    | exact yields_ok (regular_withRest_file _ _ _)
    | exact yields_ok ((hb _ rfl).withRest _)
    | exact yields_ok ((hb _ rfl).fragment _)
    | exact yields_parseFileHost _
    | refine yields_bind fun _ => ?_
    | split

theorem yields_parseRelative {base : Url} (hb : base.Regular) (cs : List Char) :
    Yields Regular (parseRelative base cs) := by
  have hpath (path : List (List Char)) (text rest : List Char) :
      (withRest { base with path := extended base.scheme path text } rest).Regular :=
    Regular.withRest (u := { base with path := extended base.scheme path text })
      ⟨hb.scheme, fun hweb => rooted_extended (by rw [show base.scheme = _ from hweb]; decide) path text⟩
      rest
  unfold parseRelative
  dsimp only
  repeat' first
    | exact yields_ok (hpath _ _ _)
    | exact yields_ok (hb.withRest _)
    | exact yields_ok (hb.fragment _)
    | exact yields_parseAuthority hb.scheme _
    | split

theorem yields_parseOther {scheme : List Char} (hs : scheme.head? ≠ some '.')
    (hweb : scheme ≠ "http".toList) (cs : List Char) : Yields Regular (parseOther scheme cs) := by
  have hother (path : Path) (rest : List Char) :
      (withRest ⟨scheme, none, path, none, none⟩ rest).Regular :=
    Regular.withRest ⟨hs, fun h => absurd h hweb⟩ rest
  unfold parseOther
  dsimp only
  split
  · exact yields_parseAuthority hs _
  · exact yields_ok (hother _ _)
  · exact yields_ok (hother _ _)

theorem toLower_ne_dot {c : Char} (h : c.isAlpha) : c.toLower ≠ '.' := by
  intro hdot
  unfold Char.toLower at hdot
  split at hdot
  · rename_i hupper
    have hlow := UInt32.le_iff_toNat_le.1 hupper.1
    have hhigh := UInt32.le_iff_toNat_le.1 hupper.2
    have hvalue := congrArg (fun c => c.val.toNat) hdot
    simp [UInt32.toNat_add] at hvalue hlow hhigh
    omega
  · subst hdot
    exact absurd h (by decide)

theorem head_scheme? {cs scheme rest : List Char} (h : scheme? cs = some (scheme, rest)) :
    scheme.head? ≠ some '.' := by
  unfold scheme? at h
  dsimp only at h
  split at h
  · rename_i halpha
    split at h
    · rename_i after _
      cases h
      rw [List.head?_map]
      intro hdot
      obtain ⟨c, hc, hlower⟩ := Option.map_eq_some_iff.1 hdot
      rw [hc] at halpha
      exact toLower_ne_dot halpha hlower
    · cases h
  · cases h

theorem yields_parseWithScheme {base : Option Url} (hb : ∀ b ∈ base, b.Regular) {scheme : List Char}
    (hs : scheme.head? ≠ some '.') (cs : List Char) : Yields Regular (parseWithScheme base scheme cs) := by
  unfold parseWithScheme
  dsimp only
  split
  · refine yields_parseFile (fun b hm => hb b ?_) cs
    exact (Option.mem_filter_iff.1 hm).1
  · split
    · split
      · split
        · exact yields_parseRelative (hb _ rfl) cs
        · exact yields_parseAuthority hs _
      · exact yields_parseAuthority hs _
    · rename_i hspecial
      refine yields_parseOther hs ?_ cs
      rintro rfl
      exact hspecial (by decide)

theorem yields_parseAgainst {base : Option Url} (hb : ∀ b ∈ base, b.Regular) (text : String) :
    Yields Regular (parseAgainst base text) := by
  unfold parseAgainst
  dsimp only
  split
  · rename_i scheme rest hscheme
    exact yields_parseWithScheme hb (head_scheme? hscheme) rest
  · split
    · exact yields_error _
    · rename_i b
      have hbase : b.Regular := hb b rfl
      split
      · exact yields_ok (hbase.fragment _)
      · split
        · exact yields_error _
        · split
          · exact yields_parseFile hb _
          · exact yields_parseRelative hbase _

theorem regular_parse {text : String} {u : Url} (h : parse text = .ok u) : u.Regular :=
  yields_parseAgainst (by simp) text u h

theorem Regular.join {base : Url} (hb : base.Regular) {text : String} {u : Url}
    (h : base.join text = .ok u) : u.Regular :=
  yields_parseAgainst (fun b hm => by cases hm; exact hb) text u h

/-! Texts -/

theorem charsToPath_eq (u : Url) : ∃ rest, u.charsToPath = u.scheme ++ ':' :: rest := by
  unfold charsToPath
  exact ⟨_, rfl⟩

theorem path_suffix_charsToPath (u : Url) : u.path.chars <:+ u.charsToPath := by
  unfold charsToPath
  split
  · rename_i authority _
    exact ⟨u.scheme ++ ':' :: '/' :: '/' :: authority.chars, by simp⟩
  · rename_i s more _ hpath
    rw [hpath]
    exact ⟨u.scheme ++ [':', '/', '.'], by simp⟩
  · exact ⟨u.scheme ++ [':'], by simp⟩

theorem path_infix_request (u : Url) : u.path.chars <:+: u.charsToQuery := by
  unfold charsToQuery
  exact (path_suffix_charsToPath u).isInfix.trans (List.prefix_append _ _).isInfix

theorem head_append_colon {cs rest : List Char} (h : cs.head? ≠ some '.') :
    (cs ++ ':' :: rest).head? ≠ some '.' := by
  cases cs with
  | nil => simp
  | cons c cs => simpa using h

theorem Regular.head_request {u : Url} (h : u.Regular) : u.charsToQuery.head? ≠ some '.' := by
  obtain ⟨rest, hrest⟩ := charsToPath_eq u
  rw [charsToQuery, hrest, List.append_assoc, List.cons_append]
  exact head_append_colon h.scheme

theorem Regular.head_text {u : Url} (h : u.Regular) : u.text.toList.head? ≠ some '.' := by
  obtain ⟨rest, hrest⟩ := charsToPath_eq u
  rw [text, String.toList_ofList, chars, charsToQuery, hrest, List.append_assoc, List.append_assoc,
    List.cons_append]
  exact head_append_colon h.scheme

theorem Path.Rooted.chars_eq {p : Path} (h : p.Rooted) : ∃ rest, p.chars = '/' :: rest := by
  obtain ⟨s, ss, rfl⟩ := h
  exact ⟨s ++ ss.flatMap ('/' :: ·), by simp [Path.chars]⟩

end WebModules.Url
