import WebModules.Proofs.Text
import WebModules.Proofs.Url

/-!
The paths of URLs that have a host and a default port.  Such a path is read from left to right: a
segment is added to it as it is written, a dot adds nothing, and two dots take the last segment away.
-/

namespace WebModules.Url

/-! Encoded text -/

theorem upperHexDigit_mem (n : Nat) : upperHexDigit n ∈ "0123456789ABCDEF".toList := by
  unfold upperHexDigit
  rw [List.getD_eq_getElem?_getD]
  cases hn : "0123456789ABCDEF".toList[n]? with
  | none => decide
  | some c => exact List.mem_of_getElem? hn

/-- What stands in an encoded text stood there before, or encodes a byte. -/
theorem mem_percentEncode {part : Part} {c : Char} {cs : List Char} (h : c ∈ percentEncode part cs) :
    c ∈ cs ∧ c.toNat < 128 ∧ isEncodedIn part c = false ∨ c ∈ "%0123456789ABCDEF".toList := by
  obtain ⟨d, hd, hc⟩ := List.mem_flatMap.1 h
  unfold encodedChar at hc
  split at hc
  · rename_i hplain
    rw [List.mem_singleton.1 hc]
    exact .inl ⟨hd, by simpa using hplain⟩
  · obtain ⟨b, -, hb⟩ := List.mem_flatMap.1 hc
    have hdigit (n : Nat) : upperHexDigit n ∈ "%0123456789ABCDEF".toList :=
      List.mem_cons_of_mem '%' (upperHexDigit_mem n)
    simp only [encodedByte, List.mem_cons, List.not_mem_nil, or_false] at hb
    rcases hb with rfl | rfl | rfl
    · exact .inr (by decide)
    · exact .inr (hdigit _)
    · exact .inr (hdigit _)

/-- Whether a character stands for itself in a path. -/
def Plain (c : Char) : Prop := c.toNat < 128 ∧ isEncodedIn .path c = false

instance (c : Char) : Decidable (Plain c) := inferInstanceAs (Decidable (_ ∧ _))

theorem plain_percentEncode (cs : List Char) : ∀ c ∈ percentEncode .path cs, Plain c := by
  intro c hc
  rcases mem_percentEncode hc with ⟨-, h⟩ | h
  · exact h
  · exact (by decide : ∀ c ∈ "%0123456789ABCDEF".toList, Plain c) c h

theorem percentEncode_of_plain {cs : List Char} (h : ∀ c ∈ cs, Plain c) : percentEncode .path cs = cs := by
  induction cs with
  | nil => rfl
  | cons c cs ih =>
      obtain ⟨hc, hcs⟩ := List.forall_mem_cons.1 h
      have hchar : encodedChar .path c = [c] := if_pos (by simp [hc.1, hc.2])
      rw [percentEncode, List.flatMap_cons, hchar, ← percentEncode, ih hcs, List.singleton_append]

/-! Segments -/

/-- A segment as it stands in a path. -/
structure Written (s : List Char) : Prop where
  plain : ∀ c ∈ s, Plain c
  slash : ∀ c ∈ s, isSlash c = false
  double : isDoubleDot s = false
  single : isSingleDot s = false

theorem written_nil : Written [] := ⟨by simp, by simp, by decide, by decide⟩

theorem written_percentEncode {s : List Char} (hslash : ∀ c ∈ s, isSlash c = false)
    (hdouble : isDoubleDot (percentEncode .path s) = false)
    (hsingle : isSingleDot (percentEncode .path s) = false) : Written (percentEncode .path s) := by
  refine ⟨plain_percentEncode s, fun c hc => ?_, hdouble, hsingle⟩
  rcases mem_percentEncode hc with ⟨hc, -⟩ | hc
  · exact hslash c hc
  · exact (by decide : ∀ c ∈ "%0123456789ABCDEF".toList, isSlash c = false) c hc

/-- A path after a segment that another one follows. -/
def enter (path : List (List Char)) (segment : List Char) : List (List Char) :=
  let s := percentEncode .path segment
  if isDoubleDot s then path.dropLast else if isSingleDot s then path else path ++ [s]

theorem shortened_false (path : List (List Char)) : shortened false path = path.dropLast := by
  unfold shortened
  split <;> rfl

theorem addSegments_cons (path : List (List Char)) (s : List Char) {more : List (List Char)} (h : more ≠ []) :
    addSegments false path (s :: more) = addSegments false (enter path s) more := by
  rw [addSegments]
  simp only [shortened_false, List.isEmpty_iff, if_neg h, Bool.false_and, Bool.false_eq_true, if_false]
  rfl

theorem addSegments_append (path segments : List (List Char)) {more : List (List Char)} (h : more ≠ []) :
    addSegments false path (segments ++ more) = addSegments false (segments.foldl enter path) more := by
  induction segments generalizing path with
  | nil => rfl
  | cons s segments ih =>
      rw [List.cons_append, addSegments_cons _ _ (List.append_ne_nil_of_right_ne_nil _ h), ih,
        List.foldl_cons]

theorem splitSegments_slash {c : Char} (hc : isSlash c = true) (before after : List Char) :
    splitSegments true (before ++ c :: after) = splitSegments true before ++ splitSegments true after :=
  List.splitOnP_append_cons before after (by simpa [isSlash] using hc)

theorem splitSegments_ne_nil (special : Bool) (cs : List Char) : splitSegments special cs ≠ [] :=
  List.splitOnP_ne_nil _ cs

theorem splitSegments_of_noSlash {cs : List Char} (h : ∀ c ∈ cs, isSlash c = false) :
    splitSegments true cs = [cs] :=
  List.splitOnP_eq_singleton fun c hc => by simpa [isSlash] using h c hc

theorem noSlash_of_mem_splitSegments {cs part : List Char} (h : part ∈ splitSegments true cs) :
    ∀ c ∈ part, isSlash c = false := by
  induction cs generalizing part with
  | nil =>
      rw [List.mem_singleton.1 h]
      simp
  | cons d cs ih =>
      cases hd : isSlash d with
      | true =>
          rcases List.mem_append.1 (splitSegments_slash hd [] cs ▸ h) with h | h
          · rw [List.mem_singleton.1 h]
            simp
          · exact ih h
      | false =>
          obtain ⟨first, parts, hparts⟩ := List.exists_cons_of_ne_nil (splitSegments_ne_nil true cs)
          have hsplit : splitSegments true (d :: cs) = (d :: first) :: parts := by
            rw [splitSegments] at hparts ⊢
            rw [List.splitOnP_cons_eq_if_modifyHead, if_neg (by simpa [isSlash] using hd), hparts,
              List.modifyHead_cons]
          rw [hsplit] at h
          rcases List.mem_cons.1 h with rfl | h
          · exact List.forall_mem_cons.2 ⟨hd, ih (by simp [hparts])⟩
          · exact ih (by simp [hparts, h])

theorem written_addSegments {path segments : List (List Char)} (hpath : ∀ s ∈ path, Written s)
    (hsegments : ∀ s ∈ segments, ∀ c ∈ s, isSlash c = false) :
    ∀ s ∈ addSegments false path segments, Written s := by
  induction segments generalizing path with
  | nil => exact hpath
  | cons s more ih =>
      obtain ⟨hs, hmore⟩ := List.forall_mem_cons.1 hsegments
      have hempty {path : List (List Char)} (h : ∀ s ∈ path, Written s) : ∀ s ∈ path ++ [[]], Written s :=
        List.forall_mem_append.2 ⟨h, by simpa using written_nil⟩
      have hparent : ∀ s ∈ path.dropLast, Written s := fun s h => hpath s ((List.dropLast_sublist path).subset h)
      rw [addSegments]
      refine ih ?_ hmore
      simp only [shortened_false, Bool.false_and, Bool.false_eq_true, if_false]
      split
      · split
        · exact hempty hparent
        · exact hparent
      · rename_i hdouble
        split
        · split
          · exact hempty hpath
          · exact hpath
        · rename_i hsingle
          refine List.forall_mem_append.2 ⟨hpath, List.forall_mem_singleton.2 ?_⟩
          exact written_percentEncode hs (by simpa using hdouble) (by simpa using hsingle)

/-! URLs of the web -/

/-- A URL with a host and a default port, which is not its port. -/
structure Web (u : Url) : Prop where
  special : isSpecialScheme u.scheme = true
  file : isFileScheme u.scheme = false
  authority : ∃ a ∈ u.authority, a.port ≠ defaultPort? u.scheme
  path : u.path = .segments u.segments
  segments : u.segments ≠ []
  written : ∀ s ∈ u.segments, Written s

theorem defaultPort_of_special {scheme : List Char} (hs : isSpecialScheme scheme = true)
    (hf : isFileScheme scheme = false) : defaultPort? scheme ≠ none := by
  obtain ⟨⟨name, port⟩, hmem, hname⟩ := List.any_eq_true.1 hs
  have hname : name.toList = scheme := by simpa using hname
  subst hname
  simp only [specialSchemes, List.mem_cons, Prod.mk.injEq, List.not_mem_nil, or_false] at hmem
  rcases hmem with ⟨rfl, -⟩ | ⟨rfl, -⟩ | ⟨rfl, -⟩ | ⟨rfl, -⟩ | ⟨rfl, -⟩ | ⟨rfl, -⟩
  all_goals first | decide | exact absurd hf (by decide)

theorem defaultPort_of_not_special {scheme : List Char} (h : isSpecialScheme scheme = false) :
    defaultPort? scheme = none := by
  have hnone : specialSchemes.find? (fun s => s.1.toList == scheme) = none := by
    rw [List.find?_eq_none]
    exact List.any_eq_false.1 h
  rw [defaultPort?, hnone, Option.bind_none]

theorem extended_eq {scheme : List Char} (hs : isSpecialScheme scheme = true)
    (hf : isFileScheme scheme = false) (path : List (List Char)) (cs : List Char) :
    extended scheme path cs = .segments (addSegments false path (splitSegments true cs)) := by
  simp [extended, hs, hf]

theorem written_extended {path : List (List Char)} (h : ∀ s ∈ path, Written s) (cs : List Char) :
    ∀ s ∈ addSegments false path (splitSegments true cs), Written s :=
  written_addSegments h fun _ hs => noSlash_of_mem_splitSegments hs

theorem firstPath_eq {scheme : List Char} (hs : isSpecialScheme scheme = true)
    (hf : isFileScheme scheme = false) (cs : List Char) :
    ∃ all, firstPath scheme cs = .segments all ∧ all ≠ [] ∧ ∀ s ∈ all, Written s := by
  have hextended (cs : List Char) :
      ∃ all, extended scheme [] cs = .segments all ∧ all ≠ [] ∧ ∀ s ∈ all, Written s :=
    ⟨_, extended_eq hs hf [] cs, addSegments_ne_nil false [] (splitSegments_ne_nil true cs),
      written_extended (by simp) cs⟩
  unfold firstPath
  dsimp only
  split
  · split <;> exact hextended _
  · exact ⟨[[]], by rw [if_pos hs], by simp, by simpa using written_nil⟩

theorem withRest_authority (u : Url) (cs : List Char) : (withRest u cs).authority = u.authority := by
  unfold withRest
  dsimp only
  split <;> rfl

theorem withRest_congr {u v : Url} (hs : u.scheme = v.scheme) (ha : u.authority = v.authority)
    (hp : u.path = v.path) (cs : List Char) : withRest u cs = withRest v cs := by
  unfold withRest
  dsimp only
  rw [hs]
  split <;> simp [ha, hp]

theorem port_parsePort {scheme cs : List Char} (h : defaultPort? scheme ≠ none) :
    Yields (fun found => found.1 ≠ defaultPort? scheme) (parsePort scheme cs) := by
  unfold parsePort
  dsimp only
  split
  · exact yields_error _
  · split
    · exact yields_ok h.symm
    · rename_i hport
      exact yields_ok (not_or.1 hport).2

theorem yields_bind_of {ε α β : Type} {P : α → Prop} {Q : β → Prop} {x : Except ε β} {f : β → Except ε α}
    (hx : Yields Q x) (hf : ∀ b, Q b → Yields P (f b)) : Yields P (x >>= f) := by
  cases x with
  | error e => exact yields_error e
  | ok b => exact hf b (hx b rfl)

theorem web_parseAuthority {scheme : List Char} (hs : isSpecialScheme scheme = true)
    (hf : isFileScheme scheme = false) (cs : List Char) : Yields Web (parseAuthority scheme cs) := by
  have hdefault := defaultPort_of_special hs hf
  have hweb (info host : List Char) (port : Option Nat) (hport : port ≠ defaultPort? scheme)
      (path rest : List Char) :
      (withRest ⟨scheme, some ⟨info, host, port⟩, firstPath scheme path, none, none⟩ rest).Web := by
    obtain ⟨all, hall, hne, hwritten⟩ := firstPath_eq hs hf path
    have hsegments : (withRest ⟨scheme, some ⟨info, host, port⟩, firstPath scheme path, none, none⟩ rest).segments
        = all := by
      rw [Url.segments, withRest_path, hall]
    refine ⟨?_, ?_, ⟨⟨info, host, port⟩, ?_, ?_⟩, ?_, ?_, ?_⟩
    · rw [withRest_scheme]
      exact hs
    · rw [withRest_scheme]
      exact hf
    · rw [withRest_authority]
      rfl
    · rw [withRest_scheme]
      exact hport
    · rw [withRest_path, hsegments]
      exact hall
    · rw [hsegments]
      exact hne
    · rw [hsegments]
      exact hwritten
  have hnone : Yields (fun found => found.1 ≠ defaultPort? scheme)
      (pure (none, []) : Except UrlError (Option Nat × List Char)) := yields_ok hdefault.symm
  unfold parseAuthority
  dsimp only
  repeat' first
    | exact yields_error _
    | refine yields_bind_of (port_parsePort hdefault) fun found hport => yields_ok (hweb _ _ _ hport _ _)
    | refine yields_bind_of hnone fun found hport => yields_ok (hweb _ _ _ hport _ _)
    | refine yields_bind fun _ => ?_
    | split

theorem scheme_parseAuthority (scheme cs : List Char) :
    Yields (fun u => u.scheme = scheme) (parseAuthority scheme cs) := by
  unfold parseAuthority
  dsimp only
  repeat' first
    | exact yields_ok (withRest_scheme _ _)
    | exact yields_error _
    | refine yields_bind fun _ => ?_
    | split

/-- A URL that is read alone has a host and path of the web, if its scheme has a default port. -/
theorem web_parse {text : String} {u : Url} (h : parse text = .ok u) (hport : defaultPort? u.scheme ≠ none) :
    u.Web := by
  have hfile (authority : Option Authority) (path : Path) (rest : List Char) :
      defaultPort? (withRest ⟨"file".toList, authority, path, none, none⟩ rest).scheme ≠ none →
      (withRest ⟨"file".toList, authority, path, none, none⟩ rest).Web :=
    fun h => absurd (by rw [withRest_scheme]; rfl) h
  have hother {scheme : List Char} (hs : ¬ isSpecialScheme scheme = true) (u : Url) (hu : u.scheme = scheme) :
      defaultPort? u.scheme ≠ none → u.Web :=
    fun h => absurd (defaultPort_of_not_special (by rw [hu]; simpa using hs)) h
  suffices hyields : Yields (fun u => defaultPort? u.scheme ≠ none → u.Web) (parse text) from hyields u h hport
  unfold parse parseAgainst
  dsimp only
  split
  · rename_i scheme rest hscheme
    unfold parseWithScheme
    dsimp only
    split
    · unfold parseFile parseFileHost
      dsimp only
      repeat' first
        | exact yields_ok (hfile _ _ _)
        | refine yields_bind fun _ => ?_
        | split
    · rename_i hf
      split
      · rename_i hs
        exact fun u hu _ => web_parseAuthority hs (by simpa using hf) _ u hu
      · rename_i hs
        unfold parseOther
        dsimp only
        split
        · exact fun u hu => hother hs u (scheme_parseAuthority _ _ u hu)
        · exact yields_ok (hother hs _ (withRest_scheme _ _))
        · exact yields_ok (hother hs _ (withRest_scheme _ _))
  · exact yields_error _

/-! Origins -/

theorem Web.origin? {u : Url} (h : u.Web) :
    ∃ a port, u.authority = some a ∧ defaultPort? u.scheme = some port ∧ a.port ≠ some port ∧
      u.origin? = some ⟨u.scheme, a.host, a.port.getD port⟩ := by
  obtain ⟨a, ha, hport⟩ := h.authority
  obtain ⟨port, hdefault⟩ := Option.ne_none_iff_exists'.1 (defaultPort_of_special h.special h.file)
  refine ⟨a, port, ha, hdefault, hdefault ▸ hport, ?_⟩
  rw [Url.origin?, Option.mem_def.1 ha, hdefault]

/-- URLs of one origin whose user information is the same start alike. -/
theorem Web.eq_of_sameOrigin {u v : Url} (hu : u.Web) (hv : v.Web) (h : u.sameOrigin v = true)
    (huser : u.authority.map Authority.userInfo = v.authority.map Authority.userInfo) :
    u.scheme = v.scheme ∧ u.authority = v.authority := by
  obtain ⟨a, p, ha, hp, hap, horigin⟩ := hu.origin?
  obtain ⟨b, q, hb, hq, hbq, horigin'⟩ := hv.origin?
  rw [sameOrigin, horigin, horigin'] at h
  simp only [Option.isSome_some, Bool.true_and, beq_iff_eq, Option.some.injEq, Origin.mk.injEq] at h
  obtain ⟨hscheme, hhost, hport⟩ := h
  rw [ha, hb, Option.map_some, Option.map_some, Option.some.injEq] at huser
  rw [hscheme, hq, Option.some.injEq] at hp
  subst hp
  refine ⟨hscheme, ?_⟩
  rw [ha, hb, Option.some.injEq]
  obtain ⟨user, host, port⟩ := a
  obtain ⟨user', host', port'⟩ := b
  obtain rfl : user = user' := huser
  obtain rfl : host = host' := hhost
  congr 1
  cases port <;> cases port' <;> simp_all

theorem defaultPort_of_sameOrigin {u v : Url} (h : u.sameOrigin v = true) :
    defaultPort? u.scheme ≠ none ∧ defaultPort? v.scheme ≠ none := by
  rw [sameOrigin, Bool.and_eq_true, beq_iff_eq] at h
  obtain ⟨hsome, heq⟩ := h
  have hport {w : Url} (hw : w.origin?.isSome = true) : defaultPort? w.scheme ≠ none := by
    intro hnone
    rw [Url.origin?, hnone] at hw
    cases hauthority : w.authority <;> simp [hauthority] at hw
  exact ⟨hport hsome, hport (heq ▸ hsome)⟩

/-! Relative texts -/

theorem scheme?_eq_none {c : Char} {cs : List Char} (hc : c.isAlpha = false) : scheme? (c :: cs) = none := by
  unfold scheme?
  dsimp only
  rw [if_neg]
  rw [List.takeWhile_cons]
  split <;> simp [hc]

theorem parse_eq_error {text : String} {c : Char} {cs : List Char} (h : cleaned text.toList = c :: cs)
    (hc : c.isAlpha = false) : parse text = .error .noBase := by
  unfold parse parseAgainst
  dsimp only
  rw [h, scheme?_eq_none hc]

theorem Web.join_eq {u : Url} (hu : u.Web) {text : String} {c : Char} {cs : List Char}
    (h : cleaned text.toList = c :: cs) (hc : c.isAlpha = false) (hsign : c ≠ '#') :
    u.join text = parseRelative u (c :: cs) := by
  have hfixed : u.isOpaque = false := by rw [isOpaque, hu.path]
  unfold join parseAgainst
  dsimp only
  rw [h, scheme?_eq_none hc]
  dsimp only
  rw [if_neg (by simpa using hsign), if_neg (by simp [hfixed]), if_neg (by simp [hu.file])]

theorem splitPath_append {before : List Char} (h : ∀ c ∈ before, c ≠ '?' ∧ c ≠ '#') (cs : List Char) :
    splitPath (before ++ cs) = (before ++ (splitPath cs).1, (splitPath cs).2) := by
  unfold splitPath
  dsimp only
  rw [List.takeWhile_append_of_pos (by simpa using h), List.dropWhile_append_of_pos (by simpa using h)]

/-- What a text that starts with no slash, question mark or number sign refers to. -/
theorem Web.parseRelative_below {u : Url} (h : u.Web) {c : Char} {cs : List Char}
    (hc : isSlash c = false ∧ c ≠ '?' ∧ c ≠ '#') :
    parseRelative u (c :: cs) = .ok (withRest
      { u with path := .segments (addSegments false u.segments.dropLast
        (splitSegments true (splitPath (c :: cs)).1)) } (splitPath (c :: cs)).2) := by
  rw [parseRelative, if_neg hc.2.1, if_neg hc.2.2, if_neg (by simp [hc.1]), ← extended_eq h.special h.file]
  rfl

theorem Web.parseRelative_root {u : Url} (h : u.Web) {cs : List Char} (hc : ∀ c ∈ cs.head?, isSlash c = false) :
    parseRelative u ('/' :: cs) = .ok (withRest
      { u with path := .segments (addSegments false [] (splitSegments true (splitPath cs).1)) }
      (splitPath cs).2) := by
  rw [parseRelative, if_neg (by decide), if_neg (by decide), if_pos (by decide),
    ← extended_eq h.special h.file]
  cases cs with
  | nil => rfl
  | cons c cs =>
      have hslash : isSlash c = false := hc c rfl
      have hne : c ≠ '/' := by
        rintro rfl
        exact absurd hslash (by decide)
      split
      · rename_i rest heq
        rw [List.cons.injEq, List.cons.injEq] at heq
        exact absurd heq.2.1 hne
      · rw [if_neg (by simp [hslash])]
        rfl

/-! Cleaned texts -/

/-- Whether a character does not count at the ends of a text. -/
def isBlank (c : Char) : Bool := c.toNat ≤ 32

/-- Whether a character counts within a text. -/
def counts (c : Char) : Bool := !(c == '\t' || c == '\n' || c == '\r')

theorem cleaned_eq (cs : List Char) : cleaned cs = (Text.trim isBlank cs).filter counts := rfl

/-- The end of a text as it is read. -/
def cleanedEnd (cs : List Char) : List Char := (Text.trimEnd isBlank cs).filter counts

theorem trimEnd_append_cons {c : Char} (hc : isBlank c = false) (before cs : List Char) :
    Text.trimEnd isBlank (before ++ c :: cs) = before ++ c :: Text.trimEnd isBlank cs := by
  unfold Text.trimEnd
  rw [List.reverse_append, List.reverse_cons, List.append_assoc, List.dropWhile_append]
  split
  · rename_i hempty
    rw [List.isEmpty_iff] at hempty
    rw [hempty, List.singleton_append, List.dropWhile_cons, if_neg (by simp [hc])]
    simp
  · simp

theorem cleaned_slashed {parts : List (List Char)} {cs : List Char}
    (h : ∀ c ∈ (Text.slashed parts ++ cs).head?, isBlank c = false) :
    cleaned (Text.slashed parts ++ cs) = Text.slashed (parts.map (List.filter counts)) ++ cleanedEnd cs := by
  have hfilter (parts : List (List Char)) :
      (Text.slashed parts).filter counts = Text.slashed (parts.map (List.filter counts)) := by
    induction parts with
    | nil => rfl
    | cons part parts ih =>
        rw [Text.slashed_cons, List.filter_append, List.filter_cons_of_pos (by decide), ih,
          List.map_cons, Text.slashed_cons]
  have htrim : Text.trimEnd isBlank (Text.slashed parts ++ cs) = Text.slashed parts ++ Text.trimEnd isBlank cs := by
    rcases List.eq_nil_or_concat parts with rfl | ⟨front, last, rfl⟩
    · rfl
    · rw [List.concat_eq_append, Text.slashed_append, Text.slashed_cons, Text.slashed_nil, List.append_assoc, List.append_assoc,
        List.cons_append, List.nil_append, ← List.append_assoc, trimEnd_append_cons (by decide)]
      simp
  rw [cleaned_eq, Text.trim, Text.trimStart_eq_self h, htrim, List.filter_append, hfilter, cleanedEnd]

theorem cleaned_cons {c : Char} (hblank : isBlank c = false) (hc : counts c = true) (cs : List Char) :
    cleaned (c :: cs) = c :: cleanedEnd cs := by
  rw [cleaned_eq, Text.trim, Text.trimStart_eq_self (by simpa using hblank)]
  rw [← List.nil_append (c :: cs), trimEnd_append_cons hblank, List.nil_append, List.filter_cons_of_pos hc]
  rfl

theorem splitPath_slashed {parts : List (List Char)} (h : ∀ part ∈ parts, ∀ c ∈ part, c ≠ '?' ∧ c ≠ '#')
    (cs : List Char) :
    splitPath (Text.slashed parts ++ cs) = (Text.slashed parts ++ (splitPath cs).1, (splitPath cs).2) := by
  refine splitPath_append (fun c hc => ?_) cs
  obtain ⟨part, hpart, hc⟩ := List.mem_flatMap.1 hc
  rcases List.mem_append.1 hc with hc | hc
  · exact h part hpart c hc
  · rw [List.mem_singleton.1 hc]
    decide

theorem splitSegments_slashed (parts : List (List Char)) (cs : List Char) :
    splitSegments true (Text.slashed parts ++ cs) = parts.flatMap (splitSegments true) ++ splitSegments true cs := by
  induction parts with
  | nil => rfl
  | cons part parts ih =>
      rw [Text.slashed_cons, List.append_assoc, List.cons_append, splitSegments_slash (by decide), ih,
        List.flatMap_cons, List.append_assoc]

/-- The segments that parts of a text stand for. -/
def segmentsOf (parts : List (List Char)) : List (List Char) :=
  (parts.map (List.filter counts)).flatMap (splitSegments true)

theorem segmentsOf_append (parts more : List (List Char)) :
    segmentsOf (parts ++ more) = segmentsOf parts ++ segmentsOf more := by
  simp [segmentsOf]

theorem segmentsOf_singleton (part : List Char) :
    segmentsOf [part] = splitSegments true (part.filter counts) := by
  simp [segmentsOf]

end WebModules.Url
