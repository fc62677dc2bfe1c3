import WebModules.Proofs.Specifier.Relative
import WebModules.Registry.Client

/-!
What a module of the client's own server refers to.  The client keeps only the path of such a module,
and resolves what it refers to as a path below its base; the module's URL is not asked again.
-/

namespace WebModules

namespace Specifier

theorem head_of_isRelative {specifier : String} (h : isRelative specifier = true) :
    specifier.toList.head? = some '.' := by
  simp only [isRelative, Bool.or_eq_true, List.isPrefixOf_iff_prefix, beq_iff_eq] at h
  rcases h with ((⟨rest, hrest⟩ | ⟨rest, hrest⟩) | rfl) | rfl
  · rw [← hrest]
    rfl
  · rw [← hrest]
    rfl
  · rfl
  · rfl

/-- A relative specifier is joined to a path, where it is not joined to a URL. -/
theorem join_path {path : List Char} (hpath : path.head? = some '/') {specifier : String}
    (h : isRelative specifier = true) :
    join (String.ofList path) specifier
      = String.ofList (normalizeChars (directory path ++ specifier.toList)) := by
  obtain ⟨rest, rfl⟩ : ∃ rest, path = '/' :: rest := by
    cases path with
    | nil => cases hpath
    | cons c rest => exact ⟨rest, by rw [Option.some.inj hpath]⟩
  have hparse : Url.parse (String.ofList ('/' :: rest)) = .error .noBase :=
    Url.parse_eq_error (by rw [String.toList_ofList, Url.cleaned_cons (by decide) (by decide)]) (by decide)
  rw [join, h, hparse, String.toList_ofList]
  rfl

end Specifier

namespace Client

/-- A module of the client's own server, as the client's user: its path is that of its URL, and no
directory of it is without a name. -/
structure Own (c : Client) (m : ServedModule) (u : Url) : Prop where
  url : Url.parse m.url = .ok u
  path : m.path = u.pathText
  origin : u.sameOrigin c.base = true
  user : u.authority.map Url.Authority.userInfo = c.base.authority.map Url.Authority.userInfo
  named : ∀ s ∈ u.segments.dropLast, s ≠ []

theorem parse_of_ofBase {number : Nat} {base : String} {c : Client} (h : ofBase number base = .ok c) :
    ∃ text, Url.parse text = .ok c.base := by
  unfold ofBase at h
  split at h
  · rename_i u hu
    cases h
    exact ⟨_, hu⟩
  · cases h

/-- What a module refers to is the same below the client's base and at the module's URL. -/
theorem urlFor_join {number : Nat} {base : String} {c : Client} (hc : ofBase number base = .ok c)
    {m : ServedModule} {u : Url} (hm : c.Own m u) {specifier : String}
    (hr : Specifier.isRelative specifier = true) (hs : Specifier.Faithful specifier.toList) :
    ∃ v, c.urlFor (Specifier.join (c.location m) specifier) = .ok v ∧ u.join specifier = .ok v := by
  obtain ⟨text, htext⟩ := parse_of_ofBase hc
  obtain ⟨hport, hport'⟩ := Url.defaultPort_of_sameOrigin hm.origin
  have hu : u.Web := Url.web_parse hm.url hport
  have hb : c.base.Web := Url.web_parse htext hport'
  obtain ⟨hscheme, hauthority⟩ := hu.eq_of_sameOrigin hb hm.origin hm.user
  have hd : ∀ s ∈ u.segments.dropLast, Specifier.InDirectory s := fun s hmem =>
    ⟨hu.written s ((List.dropLast_sublist _).subset hmem), hm.named s hmem⟩
  obtain ⟨last, hlast, hsegments⟩ : ∃ last, '/' ∉ last ∧ u.segments = u.segments.dropLast ++ [last] := by
    refine ⟨u.segments.getLast hu.segments, fun hmem => ?_, (List.dropLast_append_getLast hu.segments).symm⟩
    exact absurd ((hu.written _ (List.getLast_mem hu.segments)).slash _ hmem) (by decide)
  have hpath : u.path = .segments (u.segments.dropLast ++ [last]) := hsegments ▸ hu.path
  have hlocation : c.location m = u.pathText := by
    unfold location
    rw [hm.url]
    dsimp only
    rw [if_pos hm.origin, hm.path]
  have hjoin : Specifier.join (c.location m) specifier = String.ofList (Specifier.normalizeChars
      ('/' :: (Text.slashed u.segments.dropLast ++ specifier.toList))) := by
    obtain ⟨s, ss, hrooted⟩ := List.exists_cons_of_ne_nil hu.segments
    obtain ⟨rest, hrest⟩ := Url.Path.Rooted.chars_eq (p := u.path) ⟨s, ss, hrooted ▸ hu.path⟩
    rw [hlocation, Url.pathText, Specifier.join_path (by rw [hrest]; rfl) hr, hpath,
      Specifier.directory_segments hlast, List.cons_append]
  obtain ⟨path, rest, hbelow, habove⟩ :=
    hs.join_eq (Specifier.head_of_isRelative hr) hu hb hd
  refine ⟨Url.withRest { u with path := path } rest, ?_, ?_⟩
  · have hsame : Url.withRest { c.base with path := path } rest = Url.withRest { u with path := path } rest :=
      Url.withRest_congr (u := { c.base with path := path }) (v := { u with path := path }) hscheme.symm
        hauthority.symm rfl rest
    rw [urlFor, hjoin, hbelow, hsame]
  · rwa [String.ofList_toList] at habove

/-- The client of the examples. -/
def cdn : Client := ⟨0, ⟨"http".toList, some ⟨[], "cdn.test".toList, none⟩, .segments [[]], none, none⟩⟩

/-- A module of a directory of that client's server. -/
def inside : ServedModule := ⟨"", "http://cdn.test/a/b.js?min", "/a/b.js", 200⟩

def insideUrl : Url :=
  ⟨"http".toList, some ⟨[], "cdn.test".toList, none⟩, .segments ["a".toList, "b.js".toList], some "min".toList,
    none⟩

theorem urlFor_join_inside :
    ∃ v, cdn.urlFor (Specifier.join (cdn.location inside) "./c/%2E/x\\d/f/../e.js?v=1/2#x/y ") = .ok v ∧
      insideUrl.join "./c/%2E/x\\d/f/../e.js?v=1/2#x/y " = .ok v :=
  urlFor_join (show ofBase 0 "http://cdn.test/" = .ok cdn by decide +kernel)
    ⟨by decide +kernel, by decide +kernel, by decide +kernel, by decide, by decide⟩ (by decide +kernel)
    (by decide +kernel)

/-- A relative specifier in a module of the client's server leads to another place there than in the
module's URL. -/
def Differs (c : Client) (url specifier : String) : Prop :=
  match Url.parse url with
  | .ok u =>
    u.sameOrigin c.base = true ∧ Specifier.isRelative specifier = true ∧
      (c.urlFor (Specifier.join (c.location ⟨"", url, u.pathText, 200⟩) specifier)).toOption
        ≠ (u.join specifier).toOption
  | .error _ => False

instance (c : Client) (url specifier : String) : Decidable (c.Differs url specifier) := by
  unfold Differs
  split <;> infer_instance

/-- An empty segment is lost in a path, and so is one that two dots lead back over, whatever it stands
for in a URL.  What follows a slash in a query is no path in a URL, and a user is no part of a path. -/
theorem urlFor_join_differs :
    ofBase 0 "http://cdn.test/" = .ok cdn ∧
      (∀ specifier ∈ ["./c//d.js", "./c\\d/../e.js", "./c/%2e/../d.js", "./c/.\t/../d.js", "./c/%2E./../d.js",
          "./c.js?v=1/../2", "./c.js?v=1/./2", "./c.js?v=1//2", "./c.js#x/.."],
        cdn.Differs "http://cdn.test/a/b.js" specifier) ∧
      cdn.Differs "http://cdn.test/a//b.js" "./c.js" ∧ cdn.Differs "http://me@cdn.test/a/b.js" "./c.js" := by
  decide +kernel

end Client

end WebModules
