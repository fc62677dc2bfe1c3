import WebModules.Proofs.ImportMap.Override
import WebModules.Proofs.ImportMap.Removal
import WebModules.Proofs.Json.Regular

/-!
What the removal of a name leaves of the document in a file, said of the document itself: it is not taken
for granted that a map can be read from it.
-/

namespace WebModules

namespace Json

variable {P : Number → Prop} {depth : Nat} {j : Json}

theorem Regular.get? {value : Json} {name : String} (h : Regular P depth j) (hv : j.get? name = some value) :
    Regular P depth value := by
  cases h with
  | @object depth fields names regular => exact (regular _ (mem_of_field? hv)).mono (Nat.le_succ depth)
  | null | bool | number | string | array => cases hv

/-- The value that a path of names leads to in a document. -/
def at? : Json → List String → Option Json
  | j, [] => some j
  | j, name :: names => (j.get? name).bind fun value => value.at? names

theorem at?_pair (j : Json) (first second : String) : j.at? [first, second] = (j.get? first).bind (·.get? second) := by
  simp [at?]

theorem at?_triple (j : Json) (first second third : String) :
    j.at? [first, second, third] = ((j.get? first).bind (·.get? second)).bind (·.get? third) := by
  simp [at?, Option.bind_assoc]

/-- An object all of whose values have a property. -/
def HoldsOnly (Q : Json → Prop) (j : Json) : Prop := ∃ fields, j = .object fields ∧ ∀ f ∈ fields, Q f.2

theorem eq_string_iff {s : String} : j = .string s ↔ j.asString? = some s := by
  constructor
  · rintro rfl
    rfl
  · intro h
    cases j with
    | string s' => rw [Option.some.inj h]
    | null | bool | number | array | object => cases h

end Json

namespace ImportMap

open Json (HoldsOnly)

variable {P : Json.Number → Prop} {depth : Nat} {document document' : Json} {m left : ImportMap}
  {name owner path text directory : String} {t : FileTree}

/-- A document that has nothing but strings in its imports, and nothing but objects of strings in its scopes. -/
def Typed (document : Json) : Prop :=
  (∀ j, document.get? "imports" = some j → j.HoldsOnly fun value => ∃ s, value = .string s) ∧
    ∀ j, document.get? "scopes" = some j → j.HoldsOnly (HoldsOnly fun value => ∃ s, value = .string s)

/-- The directories whose scopes are reached from the imports of a document, a name left out. -/
inductive Leads (document : Json) (name : String) : String → Prop
  | imported {other target : String} (hne : other ≠ name)
      (entry : document.at? ["imports", other] = some (.string target)) : Leads document name (parentDir target)
  | inScope {directory other target : String} (reached : Leads document name directory)
      (entry : document.at? ["scopes", directory, other] = some (.string target)) :
      Leads document name (parentDir target)

/-- What a document keeps when a name is removed from it. -/
structure Frames (document document' : Json) (name : String) : Prop where
  fields : ∀ field, field ≠ "imports" → field ≠ "scopes" → document'.get? field = document.get? field
  imports : ∀ other, other ≠ name → document'.at? ["imports", other] = document.at? ["imports", other]
  scopes : ∀ directory, Leads document name directory →
    ((document'.at? ["scopes", directory]).isSome ↔ (document.at? ["scopes", directory]).isSome) ∧
      ∀ other, document'.at? ["scopes", directory, other] = document.at? ["scopes", directory, other]

/-! Documents that a map can be read from -/

theorem holdsOnly_iff {α : Type} {value? : Json → Option α} {j : Json} :
    j.HoldsOnly (fun value => ∃ a, value? value = some a) ↔ ∃ d, dictionary? value? j = some d := by
  constructor
  · rintro ⟨fields, rfl, h⟩
    obtain ⟨entries, hentries⟩ := exists_mapM_fieldValue? h
    exact ⟨.ofList entries, by rw [dictionary?_object, hentries, Option.map_some]⟩
  · rintro ⟨d, h⟩
    cases j with
    | object fields =>
        rw [dictionary?_object, Option.map_eq_some_iff] at h
        obtain ⟨entries, hentries, -⟩ := h
        exact ⟨fields, rfl, (mapM_fieldValue? hentries).2.1⟩
    | null | bool | number | string | array => cases h

theorem holdsOnly_strings_iff {j : Json} :
    (j.HoldsOnly fun value => ∃ s, value = .string s) ↔ ∃ imports, imports? j = some imports := by
  simp only [Json.eq_string_iff]
  exact holdsOnly_iff

theorem holdsOnly_scopes_iff {j : Json} :
    j.HoldsOnly (HoldsOnly fun value => ∃ s, value = .string s) ↔ ∃ scopes, scopes? j = some scopes := by
  have hvalue : (HoldsOnly fun value => ∃ s, value = .string s) = fun value => ∃ imports, imports? value = some imports :=
    funext fun value => propext holdsOnly_strings_iff
  rw [hvalue]
  exact holdsOnly_iff

theorem exists_part?_iff {α : Type} {value? : Json → Option (Dictionary α)} {found : Option Json} :
    (∃ d, part? value? found.toList = some d) ↔ ∀ j, found = some j → ∃ d, value? j = some d := by
  cases found with
  | none => exact ⟨fun _ _ => nofun, fun _ => ⟨.empty, rfl⟩⟩
  | some j => exact ⟨fun h j' hj => Option.some.inj hj ▸ h, fun h => h j rfl⟩

theorem ofJson?_eq_some_iff (hr : Json.Regular P depth document) (hobject : document.isObject) :
    ofJson? document = some m ↔ part? imports? (document.get? "imports").toList = some m.imports ∧
      part? scopes? (document.get? "scopes").toList = some m.scopes := by
  cases hr with
  | @object depth fields names regular =>
      rw [ofJson?, fieldsNamed_eq names, fieldsNamed_eq names]
      constructor
      · intro h
        obtain ⟨imports, himports, hrest⟩ := Option.bind_eq_some_iff.1 h
        obtain ⟨scopes, hscopes, hm⟩ := Option.bind_eq_some_iff.1 hrest
        obtain rfl := Option.some.inj hm
        exact ⟨himports, hscopes⟩
      · rintro ⟨himports, hscopes⟩
        simp only [Json.get?] at himports hscopes
        simp [himports, hscopes]
  | null | bool | number | string | array => cases hobject

theorem typed_iff (hr : Json.Regular P depth document) (hobject : document.isObject) :
    Typed document ↔ ∃ m, ofJson? document = some m := by
  have hexists : (∃ m, ofJson? document = some m) ↔
      (∃ imports, part? imports? (document.get? "imports").toList = some imports) ∧
        ∃ scopes, part? scopes? (document.get? "scopes").toList = some scopes := by
    constructor
    · rintro ⟨m, hm⟩
      obtain ⟨himports, hscopes⟩ := (ofJson?_eq_some_iff hr hobject).1 hm
      exact ⟨⟨_, himports⟩, ⟨_, hscopes⟩⟩
    · rintro ⟨⟨imports, himports⟩, ⟨scopes, hscopes⟩⟩
      exact ⟨⟨imports, scopes⟩, (ofJson?_eq_some_iff hr hobject).2 ⟨himports, hscopes⟩⟩
  rw [hexists, exists_part?_iff, exists_part?_iff, Typed]
  simp only [holdsOnly_strings_iff, holdsOnly_scopes_iff]

/-! The entries of a document and those of a map -/

/-- A document whose entries are those of a map. -/
structure Reflects (document : Json) (m : ImportMap) : Prop where
  imports : ∀ name, document.at? ["imports", name] = (m.imports.get? name).map .string
  scopes : ∀ directory, (document.at? ["scopes", directory]).isSome ↔ (m.scopes.get? directory).isSome
  entries : ∀ directory name, document.at? ["scopes", directory, name] =
    ((m.scopes.get? directory).bind (·.get? name)).map .string

theorem get?_of_dictionary? {α : Type} {value? : Json → Option α} {j : Json} {d : Dictionary α}
    (hr : Json.Regular P depth j) (h : dictionary? value? j = some d) (name : String) :
    (j.get? name).map value? = (d.get? name).map some := by
  cases hr with
  | object names regular => exact (dictionary?_eq_some_iff names).1 h name
  | null | bool | number | string | array => cases h

theorem get?_of_part? {α : Type} {value? : Json → Option (Dictionary α)} {item? : Json → Option α} {found : Option Json}
    {d : Dictionary α} (hr : ∀ j, found = some j → Json.Regular P depth j) (hvalue : value? = dictionary? item?)
    (h : part? value? found.toList = some d) (name : String) :
    (found.bind (·.get? name)).map item? = (d.get? name).map some := by
  subst hvalue
  cases found with
  | none =>
      obtain rfl : Dictionary.empty = d := Option.some.inj h
      rfl
  | some j => exact get?_of_dictionary? (hr j rfl) h name

theorem eq_map_string {found : Option Json} {path : Option String} (h : found.map Json.asString? = path.map some) :
    found = path.map .string := by
  cases found with
  | none =>
      cases path with
      | none => rfl
      | some path => cases h
  | some value =>
      obtain ⟨path, rfl, htext⟩ := Option.map_eq_some_iff.1 h.symm
      rw [Option.map_some, Json.eq_string_iff.2 htext.symm]

theorem reflects_of_ofJson? (hr : Json.Regular P depth document) (hobject : document.isObject)
    (hm : ofJson? document = some m) : Reflects document m := by
  obtain ⟨himports, hscopes⟩ := (ofJson?_eq_some_iff hr hobject).1 hm
  have hscope := get?_of_part? (fun _ => hr.get?) rfl hscopes
  constructor
  · intro name
    rw [Json.at?_pair]
    exact eq_map_string (get?_of_part? (fun _ => hr.get?) rfl himports name)
  · intro directory
    rw [Json.at?_pair, ← Option.isSome_map (f := imports?), hscope, Option.isSome_map]
  · intro directory name
    have hfound := hscope directory
    rw [← Json.at?_pair] at hfound
    rw [Json.at?_triple, ← Json.at?_pair]
    cases hat : document.at? ["scopes", directory] with
    | none =>
        rw [hat] at hfound
        rw [Option.map_eq_none_iff.1 hfound.symm]
        rfl
    | some scope =>
        rw [hat] at hfound
        obtain ⟨entries, hentries, hread⟩ := Option.map_eq_some_iff.1 hfound.symm
        rw [Json.at?_pair] at hat
        obtain ⟨part, hpart, hdirectory⟩ := Option.bind_eq_some_iff.1 hat
        rw [hentries]
        exact eq_map_string (get?_of_dictionary? ((hr.get? hpart).get? hdirectory) hread.symm name)

theorem reflects_replaceIn (m : ImportMap) (document : Json) : Reflects (m.replaceIn document) m := by
  have himports : (m.replaceIn document).get? "imports" = some (importsJson m.imports) := by
    cases document with
    | object fields => simp [replaceIn, Json.get?, Json.field?_setField]
    | null | bool | number | string | array => rfl
  have hscopes : (m.replaceIn document).get? "scopes" = some (scopesJson m.scopes) := by
    cases document with
    | object fields => simp [replaceIn, Json.get?, Json.field?_setField]
    | null | bool | number | string | array => rfl
  have hscope (directory : String) : (m.replaceIn document).at? ["scopes", directory] =
      (m.scopes.get? directory).map importsJson := by
    rw [Json.at?_pair, hscopes]
    exact field?_entries importsJson m.scopes directory
  constructor
  · intro name
    rw [Json.at?_pair, himports]
    exact field?_entries .string m.imports name
  · intro directory
    rw [hscope, Option.isSome_map]
  · intro directory name
    rw [Json.at?_triple, ← Json.at?_pair, hscope]
    cases m.scopes.get? directory with
    | none => rfl
    | some scope => exact field?_entries .string scope name

theorem Reflects.leads_iff (h : Reflects document m) : Leads document name directory ↔ (m.without name).Needs directory := by
  constructor
  · intro hl
    induction hl with
    | @imported other target hne entry =>
        rw [h.imports, Option.map_eq_some_iff] at entry
        obtain ⟨path, hpath, hstring⟩ := entry
        obtain rfl := Json.string.inj hstring
        apply Needs.imported
        rw [without, Dictionary.get?_erase, if_neg hne]
        exact hpath
    | @inScope directory other target reached entry ih =>
        rw [h.entries, Option.map_eq_some_iff] at entry
        obtain ⟨path, hpath, hstring⟩ := entry
        obtain rfl := Json.string.inj hstring
        obtain ⟨scope, hscope, hother⟩ := Option.bind_eq_some_iff.1 hpath
        exact .inScope ih hscope hother
  · intro hn
    induction hn with
    | @imported other target entry =>
        rw [without, Dictionary.get?_erase] at entry
        split at entry
        · cases entry
        · rename_i hne
          apply Leads.imported hne
          rw [h.imports, entry, Option.map_some]
    | @inScope directory other target scope needed found entry ih =>
        have hentry : document.at? ["scopes", directory, other] = some (.string target) := by
          rw [h.entries, show m.scopes.get? directory = some scope from found, Option.bind_some, entry, Option.map_some]
        exact .inScope ih hentry

/-! Removing a name -/

theorem frames_replaceIn (h : Reflects document m) {removal : Removal} (hremoves : Removes m left name owner removal) :
    Frames document (left.replaceIn document) name := by
  have hleft := reflects_replaceIn left document
  constructor
  · intro field hi hs
    exact get?_replaceIn hi hs left document
  · intro other hne
    rw [hleft.imports, h.imports, hremoves.imports, if_neg hne]
  · intro directory hl
    have hkept := hremoves.kept directory (h.leads_iff.1 hl)
    constructor
    · rw [hleft.scopes, h.scopes, hkept]
    · intro other
      rw [hleft.entries, h.entries, hkept]

/-- The removal of a name from any file that holds an object can be done.  It leaves the other fields of the
document.  In a document that has nothing but paths for names it leaves the other imports and all scopes that are
reached from them, but in another one it leaves neither imports nor scopes. -/
theorem removeDependency_frames (hr : t.read path = .ok text) (hj : Json.read text = .ok document)
    (hobject : document.isObject) (name owner : String) :
    ∃ removal t' document', removeDependency path name owner t = (.ok removal, t') ∧
      t'.read path = .ok (document'.pretty ++ "\n") ∧
      (∀ field, field ≠ "imports" → field ≠ "scopes" → document'.get? field = document.get? field) ∧
      (Typed document → Frames document document' name) ∧
      (¬ Typed document → (∀ other, document'.at? ["imports", other] = none) ∧
        ∀ directory, document'.at? ["scopes", directory] = none) := by
  have hregular := Json.regular_of_read hj
  have hrun := removeDependency_eq hr name owner
  rw [documentIn_of_readable hr hj, removeIn] at hrun
  have hremoves := removes_remove (ofDocument document) name owner
  generalize (ofDocument document).remove name owner = removed at hrun hremoves
  obtain ⟨left, removal⟩ := removed
  have hread := FileTree.read_of_write (FileTree.write_existing hr ((left.replaceIn document).pretty ++ "\n"))
  refine ⟨removal, _, left.replaceIn document, hrun, hread, fun field hi hs => get?_replaceIn hi hs left document, ?_, ?_⟩
  · intro htyped
    obtain ⟨m, hm⟩ := (typed_iff hregular hobject).1 htyped
    have hmap : ofDocument document = m := by
      rw [ofDocument, hm]
      rfl
    exact frames_replaceIn (reflects_of_ofJson? hregular hobject hm) (hmap ▸ hremoves)
  · intro hnot
    have hempty : ofDocument document = .empty := by
      cases hm : ofJson? document with
      | none =>
          rw [ofDocument, hm]
          rfl
      | some m => exact absurd ((typed_iff hregular hobject).2 ⟨m, hm⟩) hnot
    rw [hempty] at hremoves
    have hleft := reflects_replaceIn left document
    constructor
    · intro other
      rw [hleft.imports, hremoves.imports]
      split <;> rfl
    · intro directory
      have hnone : left.scopes.get? directory = none := by
        by_cases hneeds : (ImportMap.empty.without name).Needs directory
        · rw [hremoves.kept directory hneeds]
          rfl
        · exact hremoves.dropped directory hneeds
      rw [← Option.not_isSome_iff_eq_none, hleft.scopes, hnone]
      exact Bool.false_ne_true

theorem removeDependency_frames_circular : ∃ (removal : Removal) (t' : FileTree) (document' : Json),
    removeDependency "/import-map.json" "a" "/w/a/1/" circularTree = (.ok removal, t') ∧
      t'.read "/import-map.json" = .ok (document'.pretty ++ "\n") ∧
      document'.at? ["imports", "d"] = some (.string "/w/d/1/d.js") ∧
      document'.at? ["scopes", "/w/d/1/", "d"] = some (.string "/w/d/1/d.js") := by
  obtain ⟨text, document, m, hr, hj, hm, -⟩ := exists_of_paths circularTree "/import-map.json"
    (show _ = some ["/w/a/1/a.js", "/w/b/1/b.js", "/w/d/1/d.js"] by decide +kernel)
  have hvalues : ((circularTree.read "/import-map.json").toOption.bind fun text => (Json.read text).toOption).map
      (fun j => (j.isObject, (j.at? ["imports", "d"]).bind Json.asString?,
        (j.at? ["scopes", "/w/d/1/", "d"]).bind Json.asString?)) =
      some (true, some "/w/d/1/d.js", some "/w/d/1/d.js") := by
    decide +kernel
  simp only [hr, hj, Except.toOption, Option.bind_some, Option.map_some, Option.some.injEq, Prod.mk.injEq,
    Option.bind_eq_some_iff, ← Json.eq_string_iff, exists_eq_right] at hvalues
  obtain ⟨hobject, himported, hscoped⟩ := hvalues
  obtain ⟨removal, t', document', hrun, hread, -, hframes, -⟩ := removeDependency_frames hr hj hobject "a" "/w/a/1/"
  have hframe := hframes ((typed_iff (Json.regular_of_read hj) hobject).2 ⟨m, hm⟩)
  have hleads : Leads document "a" "/w/d/1/" := .imported (by decide) himported
  refine ⟨removal, t', document', hrun, hread, ?_, ?_⟩
  · rw [hframe.imports "d" (by decide), himported]
  · rw [(hframe.scopes "/w/d/1/" hleads).2 "d", hscoped]

/-- A map in which a name stands for nothing. -/
def blockedTree : FileTree :=
  ⟨[(["import-map.json"], .file
    ("\x7b\"imports\":\x7b\"a\":\"/w/a/1/a.js\",\"b\":null,\"c\":\"/w/c/1/c.js\"\x7d,\"scopes\":\x7b\x7d\x7d"))]⟩

/-- The removal of one name from a map in which another one stands for nothing removes all names. -/
theorem removeDependency_forgets :
    ((blockedTree.read "/import-map.json").toOption.bind fun text => (Json.read text).toOption).map
        (fun j => (j.isObject, (j.at? ["imports", "c"]).bind Json.asString?)) = some (true, some "/w/c/1/c.js") ∧
      (removeDependency "/import-map.json" "a" "/w/a/1/" blockedTree).2.read "/import-map.json" =
        .ok "\x7b\n  \"imports\": \x7b\x7d,\n  \"scopes\": \x7b\x7d\n\x7d\n" := by
  decide +kernel

end ImportMap

end WebModules
