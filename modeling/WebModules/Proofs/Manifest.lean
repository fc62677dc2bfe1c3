import WebModules.Manifest
import WebModules.Proofs.FileTree.Walk
import WebModules.Proofs.ImportMap.Document
import WebModules.Proofs.Json.Outline
import WebModules.Proofs.Version

/-!
The entries of a manifest after requests have been added to it, and the requests that are read from
them.
-/

namespace WebModules.Manifest

open PackageRequest

variable {path : String} {t t' : FileTree} {r : PackageRequest} {rs : List PackageRequest}
  {entries fields : List (String × Json)}

/-! Entries -/

/-- What the entry for a request holds. -/
def recorded (r : PackageRequest) : Json := .string (r.version.getD "latest")

/-- A request after which there is none with its key. -/
def Last (rs : List PackageRequest) (r : PackageRequest) : Prop :=
  ∃ before after, rs = before ++ r :: after ∧ ∀ later ∈ after, later.key ≠ r.key

theorem Last.mem (h : Last rs r) : r ∈ rs := by
  obtain ⟨before, after, rfl, -⟩ := h
  simp

theorem exists_last {name : String} (h : name ∈ rs.map key) : ∃ r, Last rs r ∧ r.key = name := by
  induction rs with
  | nil => cases h
  | cons first rs ih =>
      by_cases hlater : name ∈ rs.map key
      · obtain ⟨r, ⟨before, after, rfl, hafter⟩, hr⟩ := ih hlater
        exact ⟨r, ⟨first :: before, after, rfl, hafter⟩, hr⟩
      · obtain rfl : name = first.key := (List.mem_cons.1 h).resolve_right hlater
        exact ⟨first, ⟨[], rs, rfl, fun later hr heq => hlater (heq ▸ List.mem_map_of_mem hr)⟩, rfl⟩

theorem field?_foldl_of_notMem {name : String} (h : name ∉ rs.map key) :
    Json.field? name (rs.foldl withRequest entries) = Json.field? name entries := by
  induction rs generalizing entries with
  | nil => rfl
  | cons r rs ih =>
      rw [List.map_cons, List.mem_cons, not_or] at h
      rw [List.foldl_cons, ih h.2, withRequest, Json.field?_setField, if_neg (Ne.symm h.1)]

theorem field?_foldl_of_last (h : Last rs r) :
    Json.field? r.key (rs.foldl withRequest entries) = some (recorded r) := by
  obtain ⟨before, after, rfl, hafter⟩ := h
  have hkey : r.key ∉ after.map key := by
    rw [List.mem_map]
    rintro ⟨later, hlater, heq⟩
    exact hafter later hlater heq
  rw [List.foldl_append, List.foldl_cons, field?_foldl_of_notMem hkey, withRequest, Json.field?_setField, if_pos rfl]
  rfl

theorem names_foldl (entries : List (String × Json)) (rs : List PackageRequest) :
    entries.map Prod.fst <+: (rs.foldl withRequest entries).map Prod.fst := by
  induction rs generalizing entries with
  | nil => exact List.prefix_refl _
  | cons r rs ih =>
      refine List.IsPrefix.trans ?_ (ih (withRequest entries r))
      rw [withRequest, Json.names_setField]
      split
      · exact List.prefix_refl _
      · exact List.prefix_append _ _

theorem nodup_foldl (h : (entries.map Prod.fst).Nodup) (rs : List PackageRequest) :
    ((rs.foldl withRequest entries).map Prod.fst).Nodup := by
  induction rs generalizing entries with
  | nil => exact h
  | cons r rs ih => exact ih (Json.nodup_setField _ _ h)

theorem mem_foldl {entry : String × Json} (h : entry ∈ rs.foldl withRequest entries) :
    entry ∈ entries ∨ ∃ r ∈ rs, entry = (r.key, recorded r) := by
  induction rs generalizing entries with
  | nil => exact .inl h
  | cons r rs ih =>
      rcases ih h with h | ⟨later, hlater, heq⟩
      · rcases Json.mem_setField h with rfl | h
        · exact .inr ⟨r, List.mem_cons_self, rfl⟩
        · exact .inl h
      · exact .inr ⟨later, List.mem_cons_of_mem _ hlater, heq⟩

/-! Documents -/

theorem document_eq_ok_iff {j : Json} :
    document path t = .ok j ↔ ∃ text, t.read path = .ok text ∧ Json.read text = .ok j := by
  rw [document]
  cases t.read path with
  | error e => simp
  | ok text =>
      dsimp only
      cases hj : Json.read text <;> simp [Except.mapError, hj]

/-- The fields of the object in a manifest, or none where there is no manifest. -/
def Prior (path : String) (t : FileTree) (fields : List (String × Json)) : Prop :=
  document path t = .ok (.object fields) ∨ t.Vacant path ∧ fields = []

theorem Prior.currentFields (h : Prior path t fields) : currentFields path t = .ok fields := by
  rw [Manifest.currentFields]
  rcases h with h | ⟨h, rfl⟩
  · rw [h]
  · rw [document, h.read]

theorem Prior.write (h : Prior path t fields) (text : String) :
    t.write path text = .ok (t.put (Path.place path) (.file text)) := by
  rcases h with h | ⟨h, -⟩
  · obtain ⟨old, hread, -⟩ := document_eq_ok_iff.1 h
    exact FileTree.write_existing hread text
  · exact h.write text

/-- A document with other entries in it. -/
def relisted (entries fields : List (String × Json)) : Json := .object (Json.setField listName (.object entries) fields)

theorem listed_relisted (entries fields : List (String × Json)) : listed (relisted entries fields) = entries := by
  rw [listed, relisted, Json.get?, Json.field?_setField, if_pos rfl]

theorem add_eq_ok (h : add path rs t = (.ok (), t')) : ∃ fields, currentFields path t = .ok fields ∧
    t.write path ((relisted (rs.foldl withRequest (listed (.object fields))) fields).pretty ++ "\n") = .ok t' := by
  rw [add, modify] at h
  split at h
  · cases h
  · rename_i fields hfields
    dsimp only at h
    split at h
    · rename_i written hwrite
      obtain rfl : written = t' := congrArg Prod.snd h
      exact ⟨fields, hfields, hwrite⟩
    · cases h

theorem regular_currentFields (h : currentFields path t = .ok fields) :
    Json.Regular (fun _ => True) Json.maxDepth (.object fields) := by
  rw [currentFields] at h
  split at h
  · rename_i found hdocument
    cases h
    obtain ⟨text, -, hj⟩ := document_eq_ok_iff.1 hdocument
    exact Json.regular_of_read hj
  · cases h
  · cases h
    exact .object List.nodup_nil nofun
  · cases h

variable {P : Json.Number → Prop} {depth : Nat}

theorem regular_listed (h : Json.Regular P (depth + 1) (.object fields)) :
    ((listed (.object fields)).map Prod.fst).Nodup ∧
      ∀ entry ∈ listed (.object fields), ∃ depth', depth = depth' + 1 ∧ Json.Regular P depth' entry.2 := by
  rw [listed]
  split
  · rename_i entries hlist
    cases h with
    | object names regular =>
        cases regular _ (Json.mem_of_field? hlist) with
        | object names' regular' => exact ⟨names', fun entry hentry => ⟨_, rfl, regular' entry hentry⟩⟩
  · exact ⟨List.nodup_nil, nofun⟩

theorem regular_relisted_of (h : Json.Regular P (depth + 2) (.object fields)) (hn : (entries.map Prod.fst).Nodup)
    (he : ∀ entry ∈ entries, entry ∈ listed (.object fields) ∨ ∃ text, entry.2 = .string text) :
    Json.Regular P (depth + 2) (relisted entries fields) := by
  obtain ⟨-, hentries⟩ := regular_listed h
  cases h with
  | object names regular =>
      refine .object (Json.nodup_setField _ _ names) fun field hfield => ?_
      rcases Json.mem_setField hfield with rfl | hfield
      · refine .object hn fun entry hentry => ?_
        rcases he entry hentry with hlisted | ⟨text, htext⟩
        · obtain ⟨depth', heq, hregular⟩ := hentries entry hlisted
          obtain rfl : depth = depth' := Nat.succ.inj heq
          exact hregular
        · rw [htext]
          exact .string _ _
      · exact regular field hfield

theorem regular_relisted (h : Json.Regular P (depth + 2) (.object fields)) (rs : List PackageRequest) :
    Json.Regular P (depth + 2) (relisted (rs.foldl withRequest (listed (.object fields))) fields) := by
  refine regular_relisted_of h (nodup_foldl (regular_listed h).1 rs) fun entry hentry => ?_
  exact (mem_foldl hentry).imp_right fun ⟨r, _, heq⟩ => ⟨_, congrArg Prod.snd heq⟩

/-! Requests that are read -/

theorem asString?_outline (j : Json) : j.outline.asString? = j.asString? := by
  cases j <;> simp [Json.outline, Json.asString?]

theorem listed_outline (j : Json) : listed j.outline = Json.outlineFields (listed j) := by
  cases j with
  | object fields =>
      have hfield : Json.field? listName (Json.outlineFields fields) = (Json.field? listName fields).map Json.outline := by
        rw [Json.outlineFields_eq, Json.field?_map]
      rw [Json.outline, listed, listed, Json.get?, Json.get?, hfield]
      cases Json.field? listName fields with
      | none => rfl
      | some value => cases value <;> simp [Json.outline, Json.outlineFields]
  | null | bool | number | string | array => simp [Json.outline, listed, Json.get?, Json.outlineFields]

theorem requestOf?_outlineFields (entries : List (String × Json)) :
    (Json.outlineFields entries).filterMap requestOf? = entries.filterMap requestOf? := by
  rw [Json.outlineFields_eq, List.filterMap_map]
  refine List.filterMap_congr fun entry _ => ?_
  simp only [requestOf?, Function.comp_apply, asString?_outline]

/-- The requests are read from a document that has been written as from the document itself. -/
theorem requests_of_read {j j' : Json} (hr : Json.Regular P depth j) (hread : t.read path = .ok (j.pretty ++ "\n"))
    (h : document path t = .ok j') : requests path t = .ok ((listed j).filterMap requestOf?) := by
  have houtline : j'.outline = j.outline := by
    obtain ⟨text, hread', hj⟩ := document_eq_ok_iff.1 h
    obtain rfl : j.pretty ++ "\n" = text := Except.ok.inj (hread.symm.trans hread')
    exact Json.outline_of_read_pretty hr hj
  have hlisted : (listed j').filterMap requestOf? = (listed j).filterMap requestOf? := by
    rw [← requestOf?_outlineFields, ← listed_outline, houtline, listed_outline, requestOf?_outlineFields]
  rw [requests, h]
  exact congrArg Except.ok hlisted

/-- A request that has been read from a text, or one whose version has been replaced by a semantic one. -/
def Asked (r : PackageRequest) : Prop :=
  ∃ input asked, PackageRequest.parse input = .ok asked ∧
    (r = asked ∨ ∃ version, (Version.parse? version).isSome ∧ r = { asked with version := some version })

theorem Asked.formed (h : Asked r) : r.Formed := by
  obtain ⟨input, asked, hparse, rfl | ⟨version, hversion, rfl⟩⟩ := h
  · exact (parse_eq_ok hparse).1
  · obtain ⟨v, hv⟩ := Option.isSome_iff_exists.1 hversion
    have hformed := (parse_eq_ok hparse).1
    refine ⟨hformed.named, hformed.start, hformed.target, fun text htext => ?_⟩
    cases htext
    exact Version.normalizeVersion_eq hv

theorem normalizeVersion_recorded (h : r.Formed) : (recorded r).asString?.bind normalizeVersion = r.version := by
  cases hr : r.version with
  | none => simp only [recorded, hr]; decide
  | some version => simpa [recorded, hr, Json.asString?] using h.version version hr

/-- The entry for a request is read as that request just if its key is. -/
theorem requestOf?_recorded (h : r.Formed) : requestOf? (r.key, recorded r) = some r ↔ Lasts r.key := by
  rw [requestOf?, normalizeVersion_recorded h]
  constructor
  · intro hread
    split at hread
    · rename_i found hparse
      have hkey : found.key = r.key := by rw [← Option.some.inj hread]; rfl
      exact h.lasts_of_parse hparse hkey
    · cases hread
  · intro hl
    rw [h.parse_key hl]

/-- When requests have been added, each key among them has one entry, which holds the version of the last request
with that key, and the other entries are as they were.  The entry is read as that request just if its key is read
as the name and the path that it was made of; then that request is one of those that are read.  Requests are read
if the document is legible, as it is if its numbers are read as they are printed. -/
theorem requests_add (hr : ∀ r ∈ rs, Asked r) (h : add path rs t = (.ok (), t')) :
    ∃ fields entries, currentFields path t = .ok fields ∧ (entries.map Prod.fst).Nodup ∧
      (∀ name ∈ rs.map key, ∃ r, Last rs r ∧ r.key = name ∧ (name, recorded r) ∈ entries ∧
        (requestOf? (name, recorded r) = some r ↔ Lasts name)) ∧
      (∀ name, name ∉ rs.map key → Json.field? name entries = Json.field? name (listed (.object fields))) ∧
      ((∀ n, Json.HasNumber n (.object fields) → Json.Steady n) → ∃ j, document path t' = .ok j) ∧
      ((∃ j, document path t' = .ok j) → ∃ found, requests path t' = .ok found ∧
        found = entries.filterMap requestOf? ∧ ∀ r, Last rs r → Lasts r.key → r ∈ found) := by
  obtain ⟨fields, hfields, hwrite⟩ := add_eq_ok h
  have hregular := regular_currentFields hfields
  have hread := FileTree.read_of_write hwrite
  have hentry (r) (hlast : Last rs r) : (r.key, recorded r) ∈ rs.foldl withRequest (listed (.object fields)) :=
    Json.mem_of_field? (field?_foldl_of_last hlast)
  have hreads (r) (hlast : Last rs r) : requestOf? (r.key, recorded r) = some r ↔ Lasts r.key :=
    requestOf?_recorded (hr r hlast.mem).formed
  refine ⟨fields, _, hfields, nodup_foldl (regular_listed hregular).1 rs, fun name hname => ?_,
    fun name hname => field?_foldl_of_notMem hname, fun hsteady => ?_, fun ⟨j, hj⟩ => ?_⟩
  · obtain ⟨r, hlast, rfl⟩ := exists_last hname
    exact ⟨r, hlast, rfl, hentry r hlast, hreads r hlast⟩
  · have hprinted := (regular_relisted (hregular.of_numbers hsteady) rs).read_pretty
    exact ⟨_, document_eq_ok_iff.2 ⟨_, hread, hprinted⟩⟩
  · refine ⟨_, requests_of_read (regular_relisted hregular rs) hread hj, by rw [listed_relisted], ?_⟩
    rw [listed_relisted]
    exact fun r hlast hlasts => List.mem_filterMap.2 ⟨_, hentry r hlast, (hreads r hlast).2 hlasts⟩

/-- Requests for a package with two versions, one of which is semantic, and for a path within another one. -/
def askedTwice : List PackageRequest :=
  [⟨"app", none, some "next"⟩, ⟨"@s/kit", some "lib/a.js", none⟩, ⟨"app", none, some "2.0.0"⟩]

theorem requests_add_twice : ∃ found, requests "/package.json" (add "/package.json" askedTwice ⟨[]⟩).2 = .ok found ∧
    ⟨"app", none, some "2.0.0"⟩ ∈ found ∧ ⟨"@s/kit", some "lib/a.js", none⟩ ∈ found := by
  have hasked : ∀ r ∈ askedTwice, Asked r := by
    refine List.forall_mem_cons.2 ⟨⟨"app@next", _, rfl, .inl rfl⟩, List.forall_mem_cons.2
      ⟨⟨"@s/kit/lib/a.js", _, rfl, .inl rfl⟩, List.forall_mem_cons.2 ⟨⟨"app", _, rfl, .inr ⟨"2.0.0", ?_, rfl⟩⟩, nofun⟩⟩⟩
    decide
  have hadded : add "/package.json" askedTwice ⟨[]⟩ = (.ok (), (add "/package.json" askedTwice ⟨[]⟩).2) :=
    Prod.ext (by decide +kernel) rfl
  obtain ⟨fields, entries, hfields, -, -, -, hlegible, hfound⟩ := requests_add hasked hadded
  obtain rfl : [] = fields := Except.ok.inj hfields
  obtain ⟨found, hread, -, hmem⟩ := hfound (hlegible fun n hn => by cases hn; contradiction)
  exact ⟨found, hread, hmem _ ⟨[_, _], [], rfl, nofun⟩ ⟨by decide, by rintro c ⟨⟩; rfl⟩,
    hmem _ ⟨[_], [_], rfl, by decide⟩ ⟨by decide, by rintro c ⟨⟩; rfl⟩⟩

/-- A sign of a version within a path is read as one when the path is read again. -/
theorem requests_add_cut :
    let r : PackageRequest := ⟨"pkg", some "foo@bar", some "1.0.0"⟩
    let added := add "/package.json" [r] ⟨[]⟩
    PackageRequest.parse "pkg/foo@bar@1.0.0" = .ok r ∧ added.1 = .ok () ∧
      requests "/package.json" added.2 = .ok [⟨"pkg", some "foo", some "1.0.0"⟩] := by
  decide +kernel

end WebModules.Manifest
